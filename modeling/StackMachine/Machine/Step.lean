import StackMachine.Double.Arithmetic
import StackMachine.Machine.State

/-!
# Execution

One step reads the instruction at the instruction pointer, operand by operand, moves the
pointer past it and carries it out.  A step that fails keeps what the instruction had done up to then,
and a machine may be run on from there.

Main definitions:

- `BinaryOp.apply`, `UnaryOp.apply`, `Condition.holds`, the functions of the set;
- `Interrupt`, why an instruction is not completed, and `Exec`, machine actions;
- `Machine.exec`, one instruction, `Machine.fetch` and `Machine.step`, the next one;
- `Machine.run`, steps until the machine stops, with a bound on their number.
-/

namespace StackMachine

/-- The result of an operation on two values, the one pushed first on the left. -/
def BinaryOp.apply : BinaryOp → Double → Double → Double
  | add => Double.add
  | sub => Double.sub
  | mul => Double.mul
  | div => Double.div
  | mod => Double.rem
  | pow => Double.pow

/-- The result of an operation on one value. -/
def UnaryOp.apply : UnaryOp → Double → Double
  | inc => Double.inc
  | dec => Double.dec
  | sqrt => Double.map Float.sqrt
  | sqr => Double.sqr
  | sin => Double.map Float.sin
  | cos => Double.map Float.cos
  | tan => Double.map Float.tan
  | arcsin => Double.map Float.asin
  | arccos => Double.map Float.acos
  | arctan => Double.map Float.atan
  | sinh => Double.map Float.sinh
  | cosh => Double.map Float.cosh
  | tanh => Double.map Float.tanh
  | ln => Double.map Float.log
  | exp => Double.map Float.exp

/-- Whether two values compare as a condition states, the one pushed first on the
left. -/
def Condition.holds : Condition → Double → Double → Bool
  | above, v, w => v.above w
  | aboveOrEqual, v, w => !v.below w
  | below, v, w => v.below w
  | belowOrEqual, v, w => !v.above w
  | equal, v, w => v.near w
  | notEqual, v, w => !v.near w

/-- Why an instruction is not completed. -/
inductive Interrupt where
  /-- It failed. -/
  | failure (e : Error)
  /-- A violated guard ended the process. -/
  | abort (a : GuardedStack.Abort)
deriving DecidableEq

/-- An action on a machine.  An interrupt leaves the state it arose in. -/
abbrev Exec := EStateM Interrupt Machine

namespace Machine

/-! ## Parts of instructions -/

/-- Fails. -/
def fail {α : Type} (e : Error) : Exec α := throw (.failure e)

/-- Fails with an error of the stream. -/
def failCode {α : Type} (e : CodeError) : Exec α := fail (.code e)

/-- Fails with an error of the running program. -/
def failRun {α : Type} (e : RunError) : Exec α := fail (.run e)

/-- Pushes a value. -/
def pushValue (v : Double) : Exec Unit := do
  let m ← get
  match m.stack.push v with
  | .ok stack => set { m with stack }
  | .error a => throw (.abort a)

/-- Pops a value. -/
def popValue (op : Opcode) : Exec Double := do
  let m ← get
  match m.stack.tryPop with
  | .ok (some v, stack) =>
    set { m with stack }
    return v
  | .ok (none, _) => failRun (.stackUnderflow op.mnemonic m.current)
  | .error a => throw (.abort a)

/-- Removes all values above the given height. -/
def truncateStack (height : Nat) : Exec Unit := do
  let m ← get
  match m.stack.truncate height with
  | .ok stack => set { m with stack }
  | .error a => throw (.abort a)

/-- Pushes a frame. -/
def pushFrame (f : Frame) : Exec Unit := do
  let m ← get
  match m.frames.push f with
  | .ok frames => set { m with frames }
  | .error a => throw (.abort a)

/-- Pops the frame of the current call. -/
def popFrame (op : Opcode) : Exec Frame := do
  let m ← get
  match m.frames.tryPop with
  | .ok (some f, frames) =>
    set { m with frames }
    return f
  | .ok (none, _) => failRun (.noActiveFrame op.mnemonic m.current)
  | .error a => throw (.abort a)

/-- The frame of the current call. -/
def currentFrame (op : Opcode) : Exec Frame := do
  let m ← get
  match m.frames.top? with
  | some f => return f
  | none => failRun (.noActiveFrame op.mnemonic m.current)

/-- Continues at an offset. -/
def continueAt (offset : Nat) : Exec Unit := modify fun m => { m with ip := offset }

/-- The offset inside the program that an operand names. -/
def targetOf (value : Double) : Exec Nat := do
  let m ← get
  match value.index? with
  | some target =>
    if target < m.program.size then return target else failCode (.outsideProgram m.current)
  | none => failCode (.outsideProgram m.current)

/-- The operand of a push or a pop. -/
def operandOf (op : Opcode) (mode value : Double) : Exec Operand := do
  let m ← get
  match Operand.decode op.mnemonic m.current mode value with
  | .ok operand => return operand
  | .error e => failCode e

/-- The address of a memory operand: the displacement added to the value of the base. -/
def addressOf (op : Opcode) (base : Option Register) (displacement : Fin ramSize) :
    Exec (Fin ramSize) := do
  let m ← get
  let origin := (base.map m.registers.get).getD Double.zero
  let address := origin.add (Double.ofNat displacement)
  match address.index? with
  | some a =>
    if h : a < ramSize then return ⟨a, h⟩
    else failRun (.addressOutOfRange op.mnemonic m.current address ramSize)
  | none => failRun (.addressOutOfRange op.mnemonic m.current address ramSize)

/-- The number of a local or an argument, which is below the number of them. -/
def slotOf (op : Opcode) (slot : Double) (available : Nat) : Exec Nat := do
  let m ← get
  match slot.index? with
  | some s =>
    if s < available then return s
    else failRun (.slotOutOfRange op.mnemonic m.current slot available)
  | none => failRun (.slotOutOfRange op.mnemonic m.current slot available)

/-- Drops the values of a call and of its arguments, and continues after the call. -/
def unwind (op : Opcode) (f : Frame) : Exec Unit := do
  let m ← get
  if m.stack.size < f.callerDepth then failRun (.stackUnderflow op.mnemonic m.current)
  else
    truncateStack f.callerDepth
    continueAt f.returnAddress

/-- Pushes the given number of zeros. -/
def pushZeros : Nat → Exec Unit
  | 0 => return ()
  | n + 1 => do
    pushValue Double.zero
    pushZeros n

/-- Adds to what there is to tell about the run. -/
def note (text : String) : Exec Unit := modify fun m => { m with notes := text :: m.notes }

/-! ## Instructions -/

/-- Pushes what an operand denotes. -/
def execPush (mode value : Double) : Exec Unit := do
  match ← operandOf .push mode value with
  | .imm v => pushValue v
  | .reg r => pushValue ((← get).registers.get r)
  | .mem base displacement =>
    let address ← addressOf .push base displacement
    pushValue ((← get).ram.get address)

/-- Pops into what an operand denotes. -/
def execPop (mode value : Double) : Exec Unit := do
  let operand ← operandOf .pop mode value
  let v ← popValue .pop
  match operand with
  | .imm _ => return ()
  | .reg r => modify fun m => { m with registers := m.registers.set r v }
  | .mem base displacement =>
    let address ← addressOf .pop base displacement
    modify fun m => { m with ram := m.ram.set address v }

/-- Replaces the two top values by one. -/
def execBinary (op : BinaryOp) : Exec Unit := do
  let a ← popValue (.binary op)
  let b ← popValue (.binary op)
  pushValue (op.apply b a)

/-- Replaces the top value. -/
def execUnary (op : UnaryOp) : Exec Unit := do
  let v ← popValue (.unary op)
  pushValue (op.apply v)

/-- Jumps if the two top values, which stay, compare as stated. -/
def execBranch (condition : Condition) (target : Double) : Exec Unit := do
  let a ← popValue (.branch condition)
  let b ← popValue (.branch condition)
  pushValue b
  pushValue a
  if condition.holds b a then continueAt (← targetOf target)

/-- Pushes a number from the console. -/
def execInput : Exec Unit := do
  let m ← get
  let (result, console) := m.console.readNumber
  set { m with console }
  match result with
  | .ok v => pushValue v
  | .error e => fail (.host e)

/-- Pops a number and prints it. -/
def execOutput : Exec Unit := do
  let v ← popValue .output
  let m ← get
  let (result, console) := m.console.printNumber v
  set { m with console }
  match result with
  | .ok () => return ()
  | .error e => fail (.host e)

/-- The greatest byte. -/
def maxByte : Nat := 255

/-- Writes the first memory cells as the data of a bitmap. -/
def execDraw (width height length : Double) : Exec Unit := do
  let m ← get
  match length.index?.bind m.ram.first? with
  | none => failRun (.addressOutOfRange Opcode.draw.mnemonic m.current length ramSize)
  | some cells =>
    match width.index?, height.index? with
    | some w, some h =>
      let data := cells.map fun v => (v.truncate maxByte).toUInt8
      match (Bitmap.encode w h data).bind m.canvas.write with
      | .ok canvas =>
        set { m with canvas }
        note s!"wrote {w}x{h} bitmap to {canvas.path}"
      | .error e => fail (.host e)
    | _, _ => fail (.host (.invalidBitmap
        s!"dimensions {width.toText}x{height.toText} are not integers"))

/-- The numbers of arguments and locals that the function headed by an instruction
declares. -/
def declaredSlots (current : Nat) (header : Placed) : Except CodeError (Nat × Nat) :=
  match header.opcode with
  | .func => .ok (0, 0)
  | .framed =>
    match (header.operand 1).index?, (header.operand 2).index? with
    | some args, some locals =>
      if args ≤ maxFrameSlots ∧ locals ≤ maxFrameSlots then .ok (args, locals)
      else .error (.outsideProgram header.offset)
    | _, _ => .error (.outsideProgram header.offset)
  | _ => .error (.notAFunction current header.offset)

/-- Calls a function: its arguments are on the stack, and its locals start at zero. -/
def execCall (function : Double) : Exec Unit := do
  let entry ← targetOf function
  let m ← get
  match m.program.decodeAt entry with
  | .error e => failCode e
  | .ok header =>
    match declaredSlots m.current header with
    | .error e => failCode e
    | .ok (args, locals) =>
      if m.stack.size < args then
        failRun (.stackUnderflow Opcode.call.mnemonic m.current)
      else
        pushFrame ⟨m.ip, m.stack.size, args, locals⟩
        pushZeros locals
        continueAt header.next

/-- Skips the body of a function that execution runs into. -/
def execHeader (bodyEnd : Double) : Exec Unit := do
  match bodyEnd.index? with
  | some offset => continueAt offset
  | none => failCode (.outsideProgram (← get).current)

/-- Ends a call, leaving the values of the function on the stack. -/
def execEndFunc : Exec Unit := do
  let f ← popFrame .endFunc
  continueAt f.returnAddress

/-- Ends a call with the top value as its result. -/
def execRet : Exec Unit := do
  let f ← currentFrame .ret
  let result ← popValue .ret
  discard <| popFrame .ret
  unwind .ret f
  pushValue result

/-- Ends a call without a result. -/
def execLeave : Exec Unit := do
  let f ← popFrame .leave
  unwind .leave f

/-- Pushes a local. -/
def execGetLocal (slot : Double) : Exec Unit := do
  let f ← currentFrame .getLocal
  let s ← slotOf .getLocal slot f.localCount
  let m ← get
  match m.stack.get? (f.base + s) with
  | some v => pushValue v
  | none => failRun (.slotOutOfRange Opcode.getLocal.mnemonic m.current slot
      (m.stack.size - f.base))

/-- Pops into a local. -/
def execSetLocal (slot : Double) : Exec Unit := do
  let f ← currentFrame .setLocal
  let s ← slotOf .setLocal slot f.localCount
  let v ← popValue .setLocal
  let m ← get
  match m.stack.set (f.base + s) v with
  | .ok (true, stack) => set { m with stack }
  | .ok (false, _) => failRun (.slotOutOfRange Opcode.setLocal.mnemonic m.current slot
      (m.stack.size - f.base))
  | .error a => throw (.abort a)

/-- Pushes an argument; the one pushed last has number zero. -/
def execGetArg (slot : Double) : Exec Unit := do
  let f ← currentFrame .getArg
  let s ← slotOf .getArg slot f.argCount
  let m ← get
  match m.stack.get? (f.base - 1 - s) with
  | some v => pushValue v
  | none => failRun (.slotOutOfRange Opcode.getArg.mnemonic m.current slot f.argCount)

/-- Carries out an instruction. -/
def exec (i : Instruction) : Exec Unit :=
  match i.opcode with
  | .stop => modify fun m => { m with halted := true }
  | .push => execPush (i.operand 0) (i.operand 1)
  | .pop => execPop (i.operand 0) (i.operand 1)
  | .binary op => execBinary op
  | .input => execInput
  | .output => execOutput
  | .jump => do continueAt (← targetOf (i.operand 0))
  | .branch condition => execBranch condition (i.operand 0)
  | .unary op => execUnary op
  | .call => execCall (i.operand 0)
  | .func | .framed => execHeader (i.operand 0)
  | .endFunc => execEndFunc
  | .ret => execRet
  | .leave => execLeave
  | .getLocal => execGetLocal (i.operand 0)
  | .setLocal => execSetLocal (i.operand 0)
  | .getArg => execGetArg (i.operand 0)
  | .draw => execDraw (i.operand 0) (i.operand 1) (i.operand 2)

/-! ## Steps -/

/-- Reads so many operands at the instruction pointer, and moves it past them. -/
def fetchOperands : Nat → Exec (List Double)
  | 0 => return []
  | n + 1 => do
    let m ← get
    match m.program.doubleAt? m.ip with
    | none => failCode (.outsideProgram m.ip)
    | some value =>
      continueAt (m.ip + Double.width)
      return value :: (← fetchOperands n)

/-- Reads the instruction at the instruction pointer, and moves it past what was read. -/
def fetch : Exec Instruction := do
  let m ← get
  match m.program.bytes[m.ip]? with
  | none => failCode (.outsideProgram m.ip)
  | some byte =>
    set { m with current := m.ip, ip := m.ip + 1 }
    match Opcode.ofByte? byte with
    | none => failCode (.invalidInstruction byte m.ip)
    | some op => return ⟨op, ← fetchOperands op.arity⟩

/-- Carries out the instruction at the instruction pointer. -/
def step : Exec Unit := do exec (← fetch)

/-! ## Runs -/

/-- How a run ends. -/
inductive Outcome where
  /-- The machine stopped, or reached the end of the program. -/
  | finished
  | interrupted (i : Interrupt)
  /-- The allowed number of steps was used up. -/
  | outOfSteps
deriving DecidableEq

/-- Carries out at most the given number of instructions. -/
def runSteps : Nat → Machine → Outcome × Machine
  | 0, m => (if m.isRunning then .outOfSteps else .finished, m)
  | n + 1, m =>
    if m.isRunning then
      match step m with
      | .ok _ m' => runSteps n m'
      | .error i m' => (.interrupted i, m')
    else
      (.finished, m)

/-- Notes that a run begins. -/
def noteStart (m : Machine) : Machine :=
  { m with notes := s!"executing {m.program.code.length} bytes of code" :: m.notes }

/-- Notes how a run ended, if the machine stopped by itself. -/
def noteEnd (o : Outcome) (m : Machine) : Machine :=
  match o with
  | .finished =>
    let text := s!"finished at byte {m.ip} with {m.stack.size} value(s) on the stack"
    { m with notes := text :: m.notes }
  | _ => m

/-- Runs a machine until it stops, for at most the given number of steps. -/
def run (steps : Nat) (m : Machine) : Outcome × Machine :=
  let (o, m) := runSteps steps m.noteStart
  (o, noteEnd o m)

end Machine

end StackMachine
