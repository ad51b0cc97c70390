import StackMachine.Proofs.Machine.Accounting

/-!
# Straight-line programs

A program that only pushes immediates and registers, pops to registers or nowhere, computes,
prints and stops goes through its instructions one after the other.  How high the stack is
before each of them follows from the opcodes before it, so whether and where such a program
runs out of values can be told without running it.

Main definitions:

- `Instruction.isStraight`, the instructions of straight-line programs;
- `balance`, the height of the stack after some instructions;
- `Passes`, when a number of instructions are carried out one after the other;
- `Facing`, a machine with the rest of a straight-line program before it.

Main results:

- Theorem `exec_straight`: what one of these instructions does.
- Theorem `underflows_iff`: a run is out of values exactly at the first instruction that needs
  more than the balance before it.
- Theorem `stack_accounted`: the accounting for the value stack, of one instruction and of a
  straight-line run.
-/

namespace StackMachine

/-- Whether an instruction moves values between the stack and the registers, computes, prints
or stops, and nothing else. -/
def Instruction.isStraight (i : Instruction) : Bool :=
  match i.opcode with
  | .push | .pop => Selector.ofDouble? (i.operand 0) != some .memory
  | .binary _ | .unary _ | .output | .stop => true
  | _ => false

/-- The number of numbers that an instruction prints. -/
def Opcode.prints : Opcode → Nat
  | output => 1
  | _ => 0

/-- A stack operand is in memory only if its mode says so. -/
theorem Operand.ne_mem_of_decode {name : String} {offset : Nat} {mode value : Double}
    {base : Option Register} {displacement : Fin ramSize}
    (hmode : (Selector.ofDouble? mode != some .memory) = true) :
    Operand.decode name offset mode value ≠ .ok (.mem base displacement) := by
  intro hdecode
  rw [bne_iff_ne] at hmode
  unfold Operand.decode at hdecode
  split at hdecode
  · cases hdecode
  · cases hdecode
  · split at hdecode <;> cases hdecode
  · rename_i hmemory
    exact hmode hmemory

namespace Machine

/-! ## One instruction -/

/-- What an instruction of a straight-line program does that completes. -/
structure Carried (i : Instruction) (m m' : Machine) : Prop where
  values : i.opcode.intake ≤ m.stack.size
  taken : ∀ a ∈ m.console.answers.take i.opcode.prints, a = none
  height : (m'.stack.size : Int) = m.stack.size + i.opcode.growth
  answers : m'.console.answers = m.console.answers.drop i.opcode.prints
  halted : m'.halted = (m.halted || i.opcode == .stop)
  ip : m'.ip = m.ip

/-- Why an instruction of a straight-line program does not complete: there are too few values,
or the host refuses the number that it prints. -/
def GivesUp (i : Instruction) (m : Machine) (r : Interrupt) : Prop :=
  m.stack.size < i.opcode.intake ∧ r = .failure (underflow i m) ∨
    i.opcode.intake ≤ m.stack.size ∧ (∃ a ∈ m.console.answers.take i.opcode.prints, a ≠ none) ∧
      ∃ cause, r = .failure (.host cause)

section Straight

variable {i : Instruction} {m : Machine}

/-- An instruction that prints nothing is carried out when its values are there and what it
leaves is in place. -/
theorem carried_of_height (hvalues : i.opcode.intake ≤ m.stack.size)
    (hprints : i.opcode.prints = 0) {m' : Machine}
    (hheight : (m'.stack.toList.length : Int) = m.stack.toList.length + i.opcode.growth)
    (hconsole : m'.console = m.console) (hhalted : m'.halted = (m.halted || i.opcode == .stop))
    (hip : m'.ip = m.ip) : Carried i m m' := by
  refine ⟨hvalues, ?_, ?_, ?_, hhalted, hip⟩
  · simp [hprints]
  · rwa [GuardedStack.size_eq, GuardedStack.size_eq]
  · simp [hconsole, hprints]

/-- A pop at the start of an instruction finds a value, or the instruction gives up. -/
theorem popValue_straight {f : Double → Exec Unit} (hintake : 1 ≤ i.opcode.intake)
    (hs : m.stack.Intact)
    (hdone : ∀ (s : GuardedStack Double) (v : Double), s.Intact →
      m.stack.toList = s.toList ++ [v] →
        Leads (f v) { m with stack := s } (fun _ => Carried i m) (fun r _ => GivesUp i m r)) :
    Leads (popValue i.opcode >>= f) m (fun _ => Carried i m) (fun r _ => GivesUp i m r) := by
  rw [leads_bind]
  apply leads_popValue hs
  · intro hempty
    refine Or.inl ⟨?_, rfl⟩
    rw [GuardedStack.size_eq, hempty]
    exact hintake
  · exact hdone

/-- A push of a number or a register adds one to the height. -/
theorem execPush_straight (hop : i.opcode = .push) (hs : m.stack.Intact) {mode value : Double}
    {x : Operand} (hdecode : Operand.decode Opcode.push.mnemonic m.current mode value = .ok x)
    (hmode : (Selector.ofDouble? mode != some .memory) = true) :
    Leads (execPush mode value) m (fun _ => Carried i m) (fun r _ => GivesUp i m r) := by
  have hpush (v : Double) :
      Leads (pushValue v) m (fun _ => Carried i m) (fun r _ => GivesUp i m r) := by
    apply leads_pushValue hs
    intro s _ hvalues
    apply carried_of_height
    all_goals simp [hop, Opcode.intake, Opcode.prints, Opcode.growth, hvalues]
  rw [execPush, leads_bind]
  apply leads_operandOf hdecode
  cases x with
  | imm v => exact hpush v
  | reg r => exact leads_get_bind.mpr (hpush _)
  | mem base displacement => exact absurd hdecode (Operand.ne_mem_of_decode hmode)

/-- A pop to nothing or a register takes one from the height, if there is a value. -/
theorem execPop_straight (hop : i.opcode = .pop) (hs : m.stack.Intact) {mode value : Double}
    {x : Operand} (hdecode : Operand.decode Opcode.pop.mnemonic m.current mode value = .ok x)
    (hmode : (Selector.ofDouble? mode != some .memory) = true) :
    Leads (execPop mode value) m (fun _ => Carried i m) (fun r _ => GivesUp i m r) := by
  rw [execPop, leads_bind]
  apply leads_operandOf hdecode
  rw [← hop]
  apply popValue_straight (by simp [hop, Opcode.intake]) hs
  intro s v _ hvalues
  have hpopped {m' : Machine} (hstack : m'.stack = s) (hconsole : m'.console = m.console)
      (hhalted : m'.halted = m.halted) (hip : m'.ip = m.ip) : Carried i m m' := by
    apply carried_of_height
    all_goals simp [hop, Opcode.intake, Opcode.prints, Opcode.growth, GuardedStack.size_eq, hvalues,
      hstack, hconsole, hhalted, hip]
  cases x with
  | imm w => exact hpopped rfl rfl rfl rfl
  | reg r => exact leads_modify.mpr (hpopped rfl rfl rfl rfl)
  | mem base displacement => exact absurd hdecode (Operand.ne_mem_of_decode hmode)

/-- An operation on one value keeps the height, if there is a value. -/
theorem execUnary_straight {op : UnaryOp} (hop : i.opcode = .unary op) (hs : m.stack.Intact) :
    Leads (execUnary op) m (fun _ => Carried i m) (fun r _ => GivesUp i m r) := by
  rw [execUnary, ← hop]
  apply popValue_straight (by simp [hop, Opcode.intake]) hs
  intro s v hs₁ hbefore
  apply leads_pushValue hs₁
  intro s₂ _ hvalues
  apply carried_of_height
  all_goals simp [hop, Opcode.intake, Opcode.prints, Opcode.growth, GuardedStack.size_eq, hbefore,
    hvalues]

/-- An operation on two values takes one from the height, if there are two. -/
theorem execBinary_straight {op : BinaryOp} (hop : i.opcode = .binary op) (hs : m.stack.Intact) :
    Leads (execBinary op) m (fun _ => Carried i m) (fun r _ => GivesUp i m r) := by
  rw [execBinary, ← hop]
  apply popValue_straight (by simp [hop, Opcode.intake]) hs
  intro s w hs₁ hw
  rw [leads_bind]
  apply leads_popValue hs₁
  · intro hempty
    refine Or.inl ⟨?_, rfl⟩
    simp [hop, Opcode.intake, GuardedStack.size_eq, hw, show s.toList = [] from hempty]
  intro s₂ v hs₂ hv
  have hbefore : m.stack.toList = s₂.toList ++ [v, w] := by
    rw [hw, show s.toList = s₂.toList ++ [v] from hv, List.append_assoc]
    rfl
  apply leads_pushValue hs₂
  intro s₃ _ hvalues
  apply carried_of_height
  case hheight =>
    have hafter : s₃.toList.length = s₂.toList.length + 1 := by simp [hvalues]
    rw [hafter, hbefore, hop, Opcode.growth, List.length_append, List.length_cons,
      List.length_singleton]
    omega
  all_goals simp [hop, Opcode.intake, Opcode.prints, GuardedStack.size_eq, hbefore]

/-- What the host answers to a number decides whether it is printed. -/
theorem printNumber_answers (c : Console) (v : Double) :
    (∃ c', c.printNumber v = (.ok (), c') ∧ (∀ a ∈ c.answers.take 1, a = none) ∧
        c'.answers = c.answers.drop 1) ∨
      ∃ cause c', c.printNumber v = (.error cause, c') ∧ ∃ a ∈ c.answers.take 1, a ≠ none := by
  unfold Console.printNumber
  cases hanswers : c.answers with
  | nil => exact Or.inl ⟨_, rfl, by simp, by simpa [Console.writeNumber] using hanswers⟩
  | cons answer rest =>
    cases answer with
    | none => exact Or.inl ⟨_, rfl, by simp, by simp [Console.writeNumber]⟩
    | some reason => exact Or.inr ⟨_, _, rfl, some reason, by simp, by simp⟩

/-- Printing takes one from the height, if there is a value and the host takes it. -/
theorem execOutput_straight (hop : i.opcode = .output) (hs : m.stack.Intact) :
    Leads execOutput m (fun _ => Carried i m) (fun r _ => GivesUp i m r) := by
  have hprints : i.opcode.prints = 1 := by rw [hop]; rfl
  rw [execOutput, ← hop]
  apply popValue_straight (by simp [hop, Opcode.intake]) hs
  intro s v _ hvalues
  have hintake : i.opcode.intake ≤ m.stack.size := by
    simp [hop, Opcode.intake, GuardedStack.size_eq, hvalues]
  rw [leads_get_bind]
  rcases printNumber_answers m.console v with ⟨c, hprint, htaken, hanswers⟩ |
    ⟨cause, c, hprint, hrefused⟩
  · simp only [hprint, leads_bind, leads_set]
    refine leads_pure.mpr ⟨hintake, hprints ▸ htaken, ?_, hprints ▸ hanswers, ?_, rfl⟩
    all_goals simp [hop, Opcode.growth, GuardedStack.size_eq, hvalues]
  · simp only [hprint, leads_bind, leads_set]
    exact leads_fail.mpr (Or.inr ⟨hintake, hprints ▸ hrefused, cause, rfl⟩)

/-- The end of a program keeps the height. -/
theorem execStop_straight (hop : i.opcode = .stop) :
    Leads (modify fun m => { m with halted := true }) m (fun _ => Carried i m)
      (fun r _ => GivesUp i m r) := by
  apply leads_modify.mpr
  apply carried_of_height
  all_goals simp [hop, Opcode.intake, Opcode.prints, Opcode.growth]

/-- An instruction of a straight-line program is carried out, unless there are too few values or
the host refuses what it prints. -/
theorem exec_straight {p : Program} {ds : List Placed} {d : Placed}
    (hadmits : ∀ x ∈ d.opcode.operands.zipIdx, CodeMap.Admits ⟨p.size, ds⟩ d x.1 x.2)
    (hstraight : d.isStraight = true) (hs : m.stack.Intact) (hcurrent : m.current = d.offset) :
    Leads (exec d.toInstruction) m (fun _ => Carried d.toInstruction m)
      (fun r _ => GivesUp d.toInstruction m r) := by
  unfold exec
  unfold Instruction.isStraight at hstraight
  cases hop : d.opcode with
  | stop => exact execStop_straight hop
  | push =>
    rw [hop] at hadmits hstraight
    rcases hadmits (.mode, 0) (by decide) with ⟨x, hx⟩
    rw [hop, ← hcurrent] at hx
    exact execPush_straight hop hs hx hstraight
  | pop =>
    rw [hop] at hadmits hstraight
    rcases hadmits (.mode, 0) (by decide) with ⟨x, hx⟩
    rw [hop, ← hcurrent] at hx
    exact execPop_straight hop hs hx hstraight
  | binary op => exact execBinary_straight hop hs
  | unary op => exact execUnary_straight hop hs
  | output => exact execOutput_straight hop hs
  | _ =>
    rw [hop] at hstraight
    cases hstraight

end Straight

/-! ## Runs -/

/-- By how much some instructions change the height of the stack. -/
def balance : List Placed → Int
  | [] => 0
  | d :: ds => d.opcode.growth + balance ds

/-- The number of numbers that some instructions print. -/
def printed : List Placed → Nat
  | [] => 0
  | d :: ds => d.opcode.prints + printed ds

/-- The first `i` instructions are carried out one after the other on a stack of the given
height: each finds its values, none stops the machine, and the host takes what they print. -/
structure Passes (height : Int) (answers : List (Option String)) (ds : List Placed) (i : Nat) :
    Prop where
  values : ∀ j < i, ∀ d, ds[j]? = some d → (d.opcode.intake : Int) ≤ height + balance (ds.take j)
  onward : ∀ j < i, ∀ d, ds[j]? = some d → d.opcode ≠ .stop
  taken : ∀ a ∈ answers.take (printed (ds.take i)), a = none

section Passes

variable {height : Int} {answers : List (Option String)} {d : Placed} {ds : List Placed} {i : Nat}

theorem passes_zero : Passes height answers ds 0 :=
  ⟨by simp, by simp, by simp [printed]⟩

/-- A machine passes an instruction and those after it if there are enough values, the instruction
is no end, and the host takes what it prints. -/
theorem passes_succ :
    Passes height answers (d :: ds) (i + 1) ↔
      (d.opcode.intake : Int) ≤ height ∧ d.opcode ≠ .stop ∧
        (∀ a ∈ answers.take d.opcode.prints, a = none) ∧
        Passes (height + d.opcode.growth) (answers.drop d.opcode.prints) ds i := by
  have hvalues : (∀ j < i + 1, ∀ e, (d :: ds)[j]? = some e →
      (e.opcode.intake : Int) ≤ height + balance ((d :: ds).take j)) ↔
      (d.opcode.intake : Int) ≤ height ∧ ∀ j < i, ∀ e, ds[j]? = some e →
        (e.opcode.intake : Int) ≤ height + d.opcode.growth + balance (ds.take j) := by
    rw [Nat.forall_lt_succ_left]
    simp [balance, Int.add_assoc]
  have honward : (∀ j < i + 1, ∀ e, (d :: ds)[j]? = some e → e.opcode ≠ .stop) ↔
      d.opcode ≠ .stop ∧ ∀ j < i, ∀ e, ds[j]? = some e → e.opcode ≠ .stop := by
    rw [Nat.forall_lt_succ_left]
    simp
  have htaken : (∀ a ∈ answers.take (printed ((d :: ds).take (i + 1))), a = none) ↔
      (∀ a ∈ answers.take d.opcode.prints, a = none) ∧
        ∀ a ∈ (answers.drop d.opcode.prints).take (printed (ds.take i)), a = none := by
    rw [List.take_succ_cons, printed, List.take_add, List.forall_mem_append]
  constructor
  · intro h
    have hvalues' := hvalues.mp h.values
    have honward' := honward.mp h.onward
    have htaken' := htaken.mp h.taken
    exact ⟨hvalues'.1, honward'.1, htaken'.1, hvalues'.2, honward'.2, htaken'.2⟩
  · rintro ⟨hfirst, hstop, hprints, hrest⟩
    exact ⟨hvalues.mpr ⟨hfirst, hrest.values⟩, honward.mpr ⟨hstop, hrest.onward⟩,
      htaken.mpr ⟨hprints, hrest.taken⟩⟩

end Passes

/-- A machine that has not stopped and has the given instructions before it, up to the end of
its program. -/
structure Facing (p : Program) (ds : List Placed) (m : Machine) : Prop where
  safe : Safe p m
  halted : m.halted = false
  rest : p.decodeFrom m.ip = (ds, none)

section Runs

variable {p : Program} {d : Placed} {ds : List Placed} {m : Machine}

/-- A machine with no instruction before it has stopped. -/
theorem Facing.isRunning_nil (h : Facing p [] m) : m.isRunning = false := by
  have hrest := h.rest
  have hge : ¬ m.ip < p.size := by
    intro hlt
    rw [Program.decodeFrom, if_pos hlt] at hrest
    split at hrest <;> simp at hrest
  simp [isRunning, h.safe.program, hge]

/-- A machine with an instruction before it is running. -/
theorem Facing.isRunning_cons (h : Facing p (d :: ds) m) : m.isRunning = true := by
  rcases Program.decodeFrom_eq_cons h.rest with ⟨hdecode, _, _⟩
  rcases Program.decodeAt_eq_ok hdecode with ⟨_, _, _, hfits, _⟩
  have hpos := d.opcode.size_pos
  have hlt : m.ip < p.size := by omega
  simp [isRunning, h.halted, h.safe.program, hlt]

/-- What the next instruction of a straight-line program does: it is carried out and leaves the
others before the machine, unless it stops it, or it gives up. -/
theorem Facing.step (hp : p.verify = .ok ()) (hstraight : d.isStraight = true)
    (h : Facing p (d :: ds) m) :
    (∃ m', step m = .ok () m' ∧ Carried d.toInstruction (m.pastReading d) m' ∧
        (d.opcode = .stop → m'.isRunning = false) ∧ (d.opcode ≠ .stop → Facing p ds m')) ∨
      ∃ r m', step m = .error r m' ∧ GivesUp d.toInstruction (m.pastReading d) r := by
  have hrunning := h.isRunning_cons
  rcases Program.decodeFrom_eq_cons h.rest with ⟨hdecode, hoffset, hrest⟩
  rcases Program.verify_eq_ok.mp hp with ⟨ds', hds', hadmits⟩
  rcases h.safe.decodeAt_ip hds' hrunning with ⟨d', hd', _, hdecode'⟩
  have heq : d' = d := by
    rw [h.safe.program, hdecode] at hdecode'
    exact (Except.ok.inj hdecode').symm
  subst heq
  have hleads := exec_straight (m := m.pastReading d') (hadmits d' hd') hstraight h.safe.stack
    hoffset.symm
  unfold Leads at hleads
  rw [pastReading, ← step_of_decodeAt hdecode'] at hleads
  cases hstep : Machine.step m with
  | error r m' =>
    rw [hstep] at hleads
    exact Or.inr ⟨r, m', rfl, hleads⟩
  | ok _ m' =>
    rw [hstep] at hleads
    have hcarried : Carried d'.toInstruction (m.pastReading d') m' := hleads
    have hhalted : m'.halted = (d'.opcode == .stop) := by
      rw [hcarried.halted, show (m.pastReading d').halted = false from h.halted, Bool.false_or]
    refine Or.inl ⟨m', rfl, hcarried, ?_, ?_⟩
    · intro hstop
      rw [hstop] at hhalted
      simp [isRunning, show m'.halted = true from hhalted]
    · intro hgoes
      refine ⟨advance_of_ok hrunning hstep ▸ safe_advance hp h.safe, ?_, ?_⟩
      · rw [hhalted, beq_eq_false_iff_ne]
        exact hgoes
      · rw [hcarried.ip]
        exact hrest

/-- Where an instruction gives up, no later one is reached. -/
theorem not_passes_of_givesUp {r : Interrupt} {i : Nat}
    (hgives : GivesUp d.toInstruction (m.pastReading d) r) :
    ¬ Passes m.stack.size m.console.answers (d :: ds) (i + 1) := by
  intro hpasses
  rcases passes_succ.mp hpasses with ⟨hvalues, _, htaken, _⟩
  rcases hgives with ⟨hshort, _⟩ | ⟨_, ⟨a, ha, hne⟩, _⟩
  · have hle : d.opcode.intake ≤ m.stack.size := Int.ofNat_le.mp hvalues
    exact Nat.not_lt.mpr hle hshort
  · exact hne (htaken a ha)

/-- An instruction that stops the machine does not give up. -/
theorem not_givesUp_of_stop {r : Interrupt} (hop : d.opcode = .stop) :
    ¬ GivesUp d.toInstruction m r := by
  rintro (⟨hshort, _⟩ | ⟨_, ⟨a, ha, _⟩, _⟩)
  · simp [hop, Opcode.intake] at hshort
  · simp [hop, Opcode.prints] at ha

/-- A run of a straight-line program is out of values exactly at the first instruction that needs
more of them than the balance before it, if nothing has ended the run before that. -/
theorem underflows_iff (hp : p.verify = .ok ()) (hstraight : ∀ d ∈ ds, d.isStraight = true)
    (h : Facing p ds m) (n : Nat) (name : String) (offset : Nat) :
    (runSteps n m).1 = .interrupted (.failure (.run (.stackUnderflow name offset))) ↔
      ∃ i d, i < n ∧ ds[i]? = some d ∧ Passes m.stack.size m.console.answers ds i ∧
        m.stack.size + balance (ds.take i) < d.opcode.intake ∧ name = d.opcode.mnemonic ∧
        offset = d.offset := by
  induction ds generalizing m n with
  | nil =>
    have hstopped := h.isRunning_nil
    cases n with
    | zero => simp [runSteps, hstopped]
    | succ n => simp [runSteps, hstopped]
  | cons d ds ih =>
    rw [List.forall_mem_cons] at hstraight
    have hrunning := h.isRunning_cons
    rcases Program.decodeFrom_eq_cons h.rest with ⟨_, hoffset, _⟩
    cases n with
    | zero => simp [runSteps, hrunning]
    | succ n =>
      rcases h.step hp hstraight.1 with ⟨m', hstep, hcarried, hstop, hgoes⟩ |
        ⟨r, m', hstep, hgives⟩
      · have hvalues : (d.opcode.intake : Int) ≤ m.stack.size := Int.ofNat_le.mpr hcarried.values
        have hrun : runSteps (n + 1) m = runSteps n m' := by simp [runSteps, hrunning, hstep]
        rw [hrun]
        constructor
        · intro hunder
          have hne : d.opcode ≠ .stop := by
            intro heq
            cases n <;> simp [runSteps, hstop heq] at hunder
          rcases (ih hstraight.2 (hgoes hne) n).mp hunder with
            ⟨i, e, hi, he, hpasses, hshort, hplace⟩
          rw [hcarried.height, hcarried.answers] at hpasses
          rw [hcarried.height] at hshort
          refine ⟨i + 1, e, Nat.succ_lt_succ hi, he, ?_, ?_, hplace⟩
          · exact passes_succ.mpr ⟨hvalues, hne, hcarried.taken, hpasses⟩
          · rw [List.take_succ_cons, balance, ← Int.add_assoc]
            exact hshort
        · rintro ⟨i, e, hi, he, hpasses, hshort, hplace⟩
          cases i with
          | zero =>
            cases he
            rw [List.take_zero, balance, Int.add_zero] at hshort
            omega
          | succ i =>
            rcases passes_succ.mp hpasses with ⟨_, hne, _, hrest⟩
            rw [List.take_succ_cons, balance, ← Int.add_assoc] at hshort
            refine (ih hstraight.2 (hgoes hne) n).mpr
              ⟨i, e, Nat.lt_of_succ_lt_succ hi, he, ?_, ?_, hplace⟩
            · rw [hcarried.height, hcarried.answers]
              exact hrest
            · rw [hcarried.height]
              exact hshort
      · have hrun : runSteps (n + 1) m = (.interrupted r, m') := by
          simp [runSteps, hrunning, hstep]
        rw [hrun]
        constructor
        · intro hunder
          cases hunder
          rcases hgives with ⟨hshort, hfailure⟩ | ⟨_, _, cause, hfailure⟩
          · cases hfailure
            refine ⟨0, d, Nat.succ_pos n, rfl, passes_zero, ?_, rfl, hoffset.symm⟩
            rw [List.take_zero, balance, Int.add_zero]
            exact Int.ofNat_lt.mpr hshort
          · cases hfailure
        · rintro ⟨i, e, hi, he, hpasses, hshort, rfl, rfl⟩
          cases i with
          | zero =>
            cases he
            rw [List.take_zero, balance, Int.add_zero] at hshort
            rcases hgives with ⟨_, rfl⟩ | ⟨hvalues, _⟩
            · rw [hoffset]
              rfl
            · have hlt : m.stack.size < d.opcode.intake := Int.ofNat_lt.mp hshort
              exact absurd hvalues (Nat.not_le.mpr hlt)
          | succ i => exact absurd hpasses (not_passes_of_givesUp hgives)

/-- A run of a straight-line program in which all instructions pass up to the end, or up to one
that stops the machine, finishes with the balance of these instructions on the stack. -/
theorem finishes_of_passes (hp : p.verify = .ok ()) (hstraight : ∀ d ∈ ds, d.isStraight = true)
    (h : Facing p ds m) {i n : Nat} (hi : i < n)
    (hpasses : Passes m.stack.size m.console.answers ds i)
    (hend : i = ds.length ∨ ∃ d, ds[i]? = some d ∧ d.opcode = .stop) :
    (runSteps n m).1 = .finished ∧
      ((runSteps n m).2.stack.size : Int) = m.stack.size + balance (ds.take i) := by
  induction ds generalizing m n i with
  | nil =>
    have hrun : runSteps n m = (.finished, m) := by
      cases n <;> simp [runSteps, h.isRunning_nil]
    simp [hrun, balance]
  | cons d ds ih =>
    rw [List.forall_mem_cons] at hstraight
    have hrunning := h.isRunning_cons
    rcases Nat.exists_eq_add_one_of_ne_zero (Nat.ne_zero_of_lt hi) with ⟨n, rfl⟩
    rcases h.step hp hstraight.1 with ⟨m', hstep, hcarried, hstop, hgoes⟩ | ⟨r, m', hstep, hgives⟩
    · have hrun : runSteps (n + 1) m = runSteps n m' := by simp [runSteps, hrunning, hstep]
      have hheight : (m'.stack.size : Int) = m.stack.size + d.opcode.growth := hcarried.height
      rw [hrun]
      cases i with
      | zero =>
        have hop : d.opcode = .stop := by simpa using hend
        have hdone : runSteps n m' = (.finished, m') := by cases n <;> simp [runSteps, hstop hop]
        simp [hdone, balance, hheight, hop, Opcode.growth]
      | succ i =>
        rcases passes_succ.mp hpasses with ⟨_, hne, _, hrest⟩
        have hend' : i = ds.length ∨ ∃ d, ds[i]? = some d ∧ d.opcode = .stop := by simpa using hend
        have hpasses' : Passes m'.stack.size m'.console.answers ds i := by
          rw [hcarried.height, hcarried.answers]
          exact hrest
        rcases ih hstraight.2 (hgoes hne) (Nat.lt_of_succ_lt_succ hi) hpasses' hend' with
          ⟨hfinished, hsize⟩
        refine ⟨hfinished, ?_⟩
        rw [hsize, hheight, List.take_succ_cons, balance, Int.add_assoc]
    · cases i with
      | zero =>
        have hop : d.opcode = .stop := by simpa using hend
        exact absurd hgives (not_givesUp_of_stop hop)
      | succ i => exact absurd hpasses (not_passes_of_givesUp hgives)

end Runs

/-- What is noted at the start and the end of a run does not change the stack. -/
theorem run_stack (n : Nat) (m : Machine) :
    (run n m).2.stack = (runSteps n m.noteStart).2.stack := by
  have hnote (o : Outcome) (m' : Machine) : (noteEnd o m').stack = m'.stack := by
    cases o <;> rfl
  exact hnote _ _

/-- After any runs of a verified program, the next instruction fails for want of values exactly
when there are fewer than it needs, and nothing else that can go wrong in it is fatal; if it
succeeds, the height of the stack is the one foretold, and a conditional jump leaves the values
as they were.  A run of a straight-line program from its start is out of values exactly at the
first instruction before which the balance is less than what it takes, unless the machine has
stopped or the host has refused a number before that; and if there is no such instruction, it
finishes with the balance on the stack. -/
theorem stack_accounted {p : Program} (hp : p.verify = .ok ()) (capacity : Nat) (console : Console)
    (canvas : Canvas) :
    (∀ (budgets : List Nat) (m : Machine) (d : Placed),
      afterRuns budgets (start p capacity console canvas) = m → m.isRunning = true →
      p.decodeAt m.ip = .ok d →
      ((∃ m', step m = .error (.failure (.run (.stackUnderflow d.opcode.mnemonic d.offset))) m') ↔
        m.stack.size < need d.toInstruction m) ∧
      (∀ e m', step m = .error (.failure e) m' →
        (e.isFatal = true ↔ e = .run (.stackUnderflow d.opcode.mnemonic d.offset))) ∧
      ∀ m', step m = .ok () m' → m'.stack.size = heightAfter d.toInstruction m ∧
        ∀ condition, d.opcode = .branch condition → m'.stack.toList = m.stack.toList) ∧
    ∃ ds, p.decode = .ok ds ∧ ((∀ d ∈ ds, d.isStraight = true) → ∀ n,
      let result := run n (start p capacity console canvas)
      (∀ name offset,
        result.1 = .interrupted (.failure (.run (.stackUnderflow name offset))) ↔
          ∃ i d, i < n ∧ ds[i]? = some d ∧ Passes 0 console.answers ds i ∧
            balance (ds.take i) < d.opcode.intake ∧ name = d.opcode.mnemonic ∧
            offset = d.offset) ∧
      ∀ i < n, Passes 0 console.answers ds i →
        (i = ds.length ∨ ∃ d, ds[i]? = some d ∧ d.opcode = .stop) →
        result.1 = .finished ∧ (result.2.stack.size : Int) = balance (ds.take i)) := by
  have hstart := safe_start hp capacity console canvas
  constructor
  · intro budgets m d hm hrunning hdecode
    have hsafe : Safe p m := hm ▸ safe_afterRuns hp hstart budgets
    rcases step_underflow_iff hp hsafe hrunning hdecode with ⟨hunder, hfatal⟩
    refine ⟨hunder, hfatal, ?_⟩
    intro m' hstep
    have hcompleted := completed_of_ok hp hsafe hrunning hdecode hstep
    exact ⟨hcompleted.height_eq, fun _ hop => hcompleted.values_of_branch hop⟩
  · rcases Program.verify_eq_ok.mp hp with ⟨ds, hds, _⟩
    refine ⟨ds, hds, ?_⟩
    intro hstraight n
    have hfacing : Facing p ds (start p capacity console canvas).noteStart :=
      ⟨hstart.of_eq rfl rfl rfl rfl, rfl, Program.decode_eq_ok_iff.mp hds⟩
    have hempty : ((start p capacity console canvas).noteStart.stack.size : Int) = 0 := rfl
    constructor
    · intro name offset
      have hiff := underflows_iff hp hstraight hfacing n name offset
      simp only [hempty, Int.zero_add] at hiff
      exact hiff
    · intro i hi hpasses hend
      have hfinishes := finishes_of_passes hp hstraight hfacing hi hpasses hend
      rw [hempty, Int.zero_add] at hfinishes
      rwa [run_stack]

/-- A value that is printed, and a pop after it. -/
def spentExample : Program :=
  .ofCode (List.flatMap Instruction.encode
    [⟨.push, [.ofNat 0, .ofNat 1]⟩, ⟨.output, []⟩, ⟨.pop, [.ofNat 0, .ofNat 0]⟩])

/-- A call of a function with one argument and three locals, which calls one with five
arguments. -/
def greedyExample : Program :=
  .ofCode (List.flatMap Instruction.encode
    [⟨.push, [.ofNat 0, .ofNat 1]⟩, ⟨.call, [.ofNat 32]⟩,
     ⟨.framed, [.ofNat 67, .ofNat 1, .ofNat 3]⟩, ⟨.call, [.ofNat 67]⟩, ⟨.endFunc, []⟩,
     ⟨.framed, [.ofNat 93, .ofNat 5, .ofNat 0]⟩, ⟨.endFunc, []⟩])

/-- The pop finds no value, in a single step as in a whole run.  The first call puts three locals
on top of the one value there is, and these four are not enough for the second. -/
theorem stack_accounted_spentExample :
    let m := start spentExample 8 (.ofInput []) (.blank "" none)
    let n := start greedyExample 8 (.ofInput []) (.blank "" none)
    spentExample.verify = .ok () ∧
      (∃ m', step (afterRuns [2] m) = .error (.failure (.run (.stackUnderflow "POP" 24))) m') ∧
      (run 3 m).1 = .interrupted (.failure (.run (.stackUnderflow "POP" 24))) ∧
      greedyExample.verify = .ok () ∧
      (∃ n', step (afterRuns [1] n) = .ok () n' ∧ n'.stack.size = 4) ∧
      ∃ n', step (afterRuns [2] n) = .error (.failure (.run (.stackUnderflow "CALL" 57))) n' := by
  intro m n
  have hp : spentExample.verify = .ok () := by decide +kernel
  have hdecode : spentExample.decode = .ok
      [⟨⟨.push, [.ofNat 0, .ofNat 1]⟩, 6⟩, ⟨⟨.output, []⟩, 23⟩,
       ⟨⟨.pop, [.ofNat 0, .ofNat 0]⟩, 24⟩] := by decide +kernel
  rcases stack_accounted hp 8 (.ofInput []) (.blank "" none) with ⟨hstep, ds, hds, hrun⟩
  rw [hdecode] at hds
  cases hds
  have hp' : greedyExample.verify = .ok () := by decide +kernel
  rcases stack_accounted hp' 8 (.ofInput []) (.blank "" none) with ⟨hstep', _⟩
  refine ⟨hp, ?_, ?_, hp', ?_, ?_⟩
  · have hrunning : (afterRuns [2] m).isRunning = true := by decide +kernel
    have hnext : spentExample.decodeAt (afterRuns [2] m).ip =
        .ok ⟨⟨.pop, [.ofNat 0, .ofNat 0]⟩, 24⟩ := by decide +kernel
    exact (hstep [2] _ _ rfl hrunning hnext).1.mpr (by decide +kernel)
  · refine ((hrun (by decide +kernel) 3).1 "POP" 24).mpr
      ⟨2, _, by decide, rfl, ?_, by decide, by decide, rfl⟩
    simp only [passes_succ, passes_zero]
    decide
  · have hrunning : (afterRuns [1] n).isRunning = true := by decide +kernel
    have hnext : greedyExample.decodeAt (afterRuns [1] n).ip = .ok ⟨⟨.call, [.ofNat 32]⟩, 23⟩ := by
      decide +kernel
    obtain ⟨_, n', hok⟩ : ∃ u n', step (afterRuns [1] n) = .ok u n' :=
      exists_ok_of_leads (by decide +kernel)
    have hheight : heightAfter ⟨.call, [.ofNat 32]⟩ (afterRuns [1] n) = 4 := by decide +kernel
    exact ⟨n', hok, ((hstep' [1] _ _ rfl hrunning hnext).2.2 n' hok).1.trans hheight⟩
  · have hrunning : (afterRuns [2] n).isRunning = true := by decide +kernel
    have hnext : greedyExample.decodeAt (afterRuns [2] n).ip = .ok ⟨⟨.call, [.ofNat 67]⟩, 57⟩ := by
      decide +kernel
    exact (hstep' [2] _ _ rfl hrunning hnext).1.mpr (by decide +kernel)

end Machine

end StackMachine
