import StackMachine.Machine.Step
import StackMachine.Proofs.Program.Stream
import StackMachine.Proofs.Stack.Intact

/-!
# What machine actions do

An action either completes or is interrupted, and both leave a machine behind.  `Leads`
says what then holds, so that the parts of an instruction are put together by the rules
below and an instruction is never unfolded down to the stacks.  As long as both stacks are
intact, the rules describe their elements as lists and no action aborts.

Main results:

- Theorem `leads_bind`: one action after another.
- Theorems `leads_pushValue`, `leads_popValue`, `leads_unwind` and the others: the parts of
  instructions.
- Theorem `fetch_of_decodeAt`: a machine reads the instruction that is decoded at its
  instruction pointer.
-/

namespace StackMachine.Machine

/-- What an action leads to from a machine: `done` if it completes, and `stopped` if it is
interrupted. -/
def Leads {α : Type} (x : Exec α) (m : Machine) (done : α → Machine → Prop)
    (stopped : Interrupt → Machine → Prop) : Prop :=
  match x m with
  | .ok a m' => done a m'
  | .error i m' => stopped i m'

instance {α : Type} {x : Exec α} {m : Machine} {done : α → Machine → Prop}
    {stopped : Interrupt → Machine → Prop} [∀ a m', Decidable (done a m')]
    [∀ i m', Decidable (stopped i m')] : Decidable (Leads x m done stopped) :=
  match hx : x m with
  | .ok a m' => decidable_of_iff (done a m') (by rw [Leads, hx])
  | .error i m' => decidable_of_iff (stopped i m') (by rw [Leads, hx])

section Rules

variable {α β : Type} {m : Machine} {done : α → Machine → Prop}
  {stopped : Interrupt → Machine → Prop}

/-! ## Composition -/

theorem leads_pure {a : α} : Leads (pure a) m done stopped ↔ done a m := Iff.rfl

/-- One action after another. -/
theorem leads_bind {x : Exec β} {f : β → Exec α} :
    Leads (x >>= f) m done stopped ↔
      Leads x m (fun b m' => Leads (f b) m' done stopped) stopped := by
  simp only [Leads, bind, EStateM.bind]
  cases x m <;> rfl

theorem leads_get_bind {f : Machine → Exec α} :
    Leads (get >>= f) m done stopped ↔ Leads (f m) m done stopped := Iff.rfl

theorem leads_set {m' : Machine} {done : PUnit → Machine → Prop} :
    Leads (set m') m done stopped ↔ done () m' := Iff.rfl

theorem leads_modify {f : Machine → Machine} {done : PUnit → Machine → Prop} :
    Leads (modify f) m done stopped ↔ done () (f m) := Iff.rfl

theorem leads_fail {e : Error} : Leads (fail e) m done stopped ↔ stopped (.failure e) m := Iff.rfl

theorem leads_failRun {e : RunError} :
    Leads (failRun e) m done stopped ↔ stopped (.failure (.run e)) m := Iff.rfl

theorem leads_discard {x : Exec α} {done : Unit → Machine → Prop} :
    Leads (discard x) m done stopped ↔ Leads x m (fun _ m' => done () m') stopped := by
  simp only [Leads, discard, Functor.mapConst, EStateM.map, Function.comp]
  cases x m <;> rfl

/-- An action that leads somewhere leads to all that follows from it. -/
theorem Leads.mono {x : Exec α} {done' : α → Machine → Prop}
    {stopped' : Interrupt → Machine → Prop} (hx : Leads x m done stopped)
    (hdone : ∀ a m', done a m' → done' a m') (hstopped : ∀ i m', stopped i m' → stopped' i m') :
    Leads x m done' stopped' := by
  unfold Leads at *
  cases hresult : x m with
  | ok a m' =>
    rw [hresult] at hx
    exact hdone a m' hx
  | error i m' =>
    rw [hresult] at hx
    exact hstopped i m' hx

/-- An action that cannot be interrupted completes. -/
theorem exists_ok_of_leads {x : Exec α} (hx : Leads x m (fun _ _ => True) (fun _ _ => False)) :
    ∃ a m', x m = .ok a m' := by
  cases hresult : x m with
  | ok a m' => exact ⟨a, m', rfl⟩
  | error i m' =>
    rw [Leads, hresult] at hx
    exact hx.elim

/-- An action that cannot complete is interrupted. -/
theorem exists_error_of_leads {x : Exec α}
    (hx : Leads x m (fun _ _ => False) (fun _ _ => True)) : ∃ i m', x m = .error i m' := by
  cases hresult : x m with
  | ok a m' =>
    rw [Leads, hresult] at hx
    exact hx.elim
  | error i m' => exact ⟨i, m', rfl⟩

/-! ## Values -/

/-- A value that is pushed is on top of the intact stack. -/
theorem leads_pushValue {v : Double} {done : Unit → Machine → Prop} (hs : m.stack.Intact)
    (hdone : ∀ s : GuardedStack Double, s.Intact → s.toList = m.stack.toList ++ [v] →
      done () { m with stack := s }) :
    Leads (pushValue v) m done stopped := by
  obtain ⟨s, hpush, hintact, hlist⟩ := GuardedStack.push_of_intact hs v
  rw [pushValue, leads_get_bind]
  simp only [hpush, leads_set]
  exact hdone s hintact hlist

/-- A value is popped from the top of the stack, or there is none and the action fails. -/
theorem leads_popValue {op : Opcode} {done : Double → Machine → Prop} (hs : m.stack.Intact)
    (hempty : m.stack.toList = [] →
      stopped (.failure (.run (.stackUnderflow op.mnemonic m.current))) m)
    (hdone : ∀ (s : GuardedStack Double) (v : Double), s.Intact →
      m.stack.toList = s.toList ++ [v] → done v { m with stack := s }) :
    Leads (popValue op) m done stopped := by
  rw [popValue, leads_get_bind]
  rcases List.eq_nil_or_concat m.stack.toList with hnil | ⟨vs, v, hlist⟩
  · simp only [GuardedStack.tryPop_of_nil hs hnil, leads_failRun]
    exact hempty hnil
  · rw [List.concat_eq_append] at hlist
    obtain ⟨s, hpop, hintact, hrest⟩ := GuardedStack.tryPop_of_append hs hlist
    simp only [hpop, leads_bind, leads_set, leads_pure]
    exact hdone s v hintact (hrest ▸ hlist)

/-- A stack that is truncated keeps its lowest values. -/
theorem leads_truncateStack {height : Nat} {done : Unit → Machine → Prop} (hs : m.stack.Intact)
    (hdone : ∀ s : GuardedStack Double, s.Intact → s.toList = m.stack.toList.take height →
      done () { m with stack := s }) :
    Leads (truncateStack height) m done stopped := by
  obtain ⟨s, htruncate, hintact, hlist⟩ := GuardedStack.truncate_of_intact hs height
  rw [truncateStack, leads_get_bind]
  simp only [htruncate, leads_set]
  exact hdone s hintact hlist

/-- Zeros that are pushed are on top of the intact stack. -/
theorem leads_pushZeros {n : Nat} {done : Unit → Machine → Prop} (hs : m.stack.Intact)
    (hdone : ∀ s : GuardedStack Double, s.Intact →
      s.toList = m.stack.toList ++ List.replicate n Double.zero → done () { m with stack := s }) :
    Leads (pushZeros n) m done stopped := by
  induction n generalizing m with
  | zero => exact hdone m.stack hs (List.append_nil _).symm
  | succ n ih =>
    rw [pushZeros, leads_bind]
    refine leads_pushValue hs fun s hintact hlist => ?_
    refine ih hintact fun s' hintact' hlist' => ?_
    refine hdone s' hintact' ?_
    rw [hlist', hlist, List.append_assoc, List.replicate_succ]
    rfl

/-! ## Frames -/

/-- A frame that is pushed is on top of the others. -/
theorem leads_pushFrame {f : Frame} {done : Unit → Machine → Prop} (hs : m.frames.Intact)
    (hdone : ∀ s : GuardedStack Frame, s.Intact → s.toList = m.frames.toList ++ [f] →
      done () { m with frames := s }) :
    Leads (pushFrame f) m done stopped := by
  obtain ⟨s, hpush, hintact, hlist⟩ := GuardedStack.push_of_intact hs f
  rw [pushFrame, leads_get_bind]
  simp only [hpush, leads_set]
  exact hdone s hintact hlist

/-- A frame is popped from the top of the others, or there is none and the action fails. -/
theorem leads_popFrame {op : Opcode} {done : Frame → Machine → Prop} (hs : m.frames.Intact)
    (hempty : m.frames.toList = [] →
      stopped (.failure (.run (.noActiveFrame op.mnemonic m.current))) m)
    (hdone : ∀ (s : GuardedStack Frame) (f : Frame), s.Intact →
      m.frames.toList = s.toList ++ [f] → done f { m with frames := s }) :
    Leads (popFrame op) m done stopped := by
  rw [popFrame, leads_get_bind]
  rcases List.eq_nil_or_concat m.frames.toList with hnil | ⟨fs, f, hlist⟩
  · simp only [GuardedStack.tryPop_of_nil hs hnil, leads_failRun]
    exact hempty hnil
  · rw [List.concat_eq_append] at hlist
    obtain ⟨s, hpop, hintact, hrest⟩ := GuardedStack.tryPop_of_append hs hlist
    simp only [hpop, leads_bind, leads_set, leads_pure]
    exact hdone s f hintact (hrest ▸ hlist)

/-- The current frame is the one on top, or there is none and the action fails. -/
theorem leads_currentFrame {op : Opcode} {done : Frame → Machine → Prop}
    (hempty : m.frames.toList = [] →
      stopped (.failure (.run (.noActiveFrame op.mnemonic m.current))) m)
    (hdone : ∀ (fs : List Frame) (f : Frame), m.frames.toList = fs ++ [f] → done f m) :
    Leads (currentFrame op) m done stopped := by
  rw [currentFrame, leads_get_bind, GuardedStack.top?_eq]
  rcases List.eq_nil_or_concat m.frames.toList with hnil | ⟨fs, f, hlist⟩
  · simp only [hnil, List.getLast?_nil, leads_failRun]
    exact hempty hnil
  · rw [List.concat_eq_append] at hlist
    simp only [hlist, List.getLast?_concat, leads_pure]
    exact hdone fs f hlist

/-- A call is unwound down to the values that its caller keeps, and execution goes on at the return
address; if there are fewer values, the action fails. -/
theorem leads_unwind {op : Opcode} {f : Frame} {done : Unit → Machine → Prop}
    (hs : m.stack.Intact)
    (hbelow : m.stack.toList.length < f.callerDepth →
      stopped (.failure (.run (.stackUnderflow op.mnemonic m.current))) m)
    (hdone : ∀ s : GuardedStack Double, s.Intact → f.callerDepth ≤ m.stack.toList.length →
      s.toList = m.stack.toList.take f.callerDepth →
      done () { m with stack := s, ip := f.returnAddress }) :
    Leads (unwind op f) m done stopped := by
  rw [unwind, leads_get_bind, GuardedStack.size_eq]
  split
  · rename_i hlt
    exact leads_failRun.mpr (hbelow hlt)
  · rename_i hge
    rw [leads_bind]
    refine leads_truncateStack hs fun s hintact hlist => ?_
    exact leads_modify.mpr (hdone s hintact (Nat.le_of_not_lt hge) hlist)

/-! ## Operands -/

/-- A number inside of the program is the target of a jump. -/
theorem leads_targetOf {value : Double} {t : Nat} {done : Nat → Machine → Prop}
    (hindex : value.index? = some t) (hlt : t < m.program.size) (hdone : done t m) :
    Leads (targetOf value) m done stopped := by
  rw [targetOf, leads_get_bind]
  simp only [hindex, hlt, if_true, leads_pure]
  exact hdone

/-- A stack operand that can be decoded is found. -/
theorem leads_operandOf {op : Opcode} {mode value : Double} {x : Operand}
    {done : Operand → Machine → Prop}
    (hdecode : Operand.decode op.mnemonic m.current mode value = .ok x) (hdone : done x m) :
    Leads (operandOf op mode value) m done stopped := by
  rw [operandOf, leads_get_bind]
  simp only [hdecode, leads_pure]
  exact hdone

/-- An address is a memory cell, or the action fails. -/
theorem leads_addressOf {op : Opcode} {base : Option Register} {displacement : Fin ramSize}
    {done : Fin ramSize → Machine → Prop}
    (houtside : ∀ address, stopped
      (.failure (.run (.addressOutOfRange op.mnemonic m.current address ramSize))) m)
    (hdone : ∀ a, done a m) :
    Leads (addressOf op base displacement) m done stopped := by
  rw [addressOf, leads_get_bind]
  dsimp only
  split
  · split
    · exact leads_pure.mpr (hdone _)
    · exact leads_failRun.mpr (houtside _)
  · exact leads_failRun.mpr (houtside _)

/-- A slot is a number below those that are available, or the action fails. -/
theorem leads_slotOf {op : Opcode} {slot : Double} {available : Nat}
    {done : Nat → Machine → Prop}
    (houtside : (∀ s, slot.index? = some s → available ≤ s) →
      stopped (.failure (.run (.slotOutOfRange op.mnemonic m.current slot available))) m)
    (hdone : ∀ s, slot.index? = some s → s < available → done s m) :
    Leads (slotOf op slot available) m done stopped := by
  rw [slotOf, leads_get_bind]
  cases hindex : slot.index? with
  | none => exact houtside (by simp [hindex])
  | some s =>
    simp only
    split
    · rename_i hlt
      exact hdone s hindex hlt
    · rename_i hge
      refine houtside fun t ht => ?_
      rw [hindex] at ht
      cases ht
      exact Nat.le_of_not_lt hge

end Rules

/-! ## Reading the next instruction -/

/-- What follows an action that completes. -/
theorem bind_of_ok {α β : Type} {x : Exec α} {f : α → Exec β} {m m' : Machine} {a : α}
    (hx : x m = .ok a m') : (x >>= f) m = f a m' := by
  simp only [bind, EStateM.bind, hx]

theorem get_bind {α : Type} {f : Machine → Exec α} {m : Machine} : (get >>= f) m = f m m := rfl

theorem set_bind {α : Type} {f : PUnit → Exec α} {m m' : Machine} :
    (set m' >>= f) m = f () m' := rfl

/-- The operands that are fetched are the doubles in the program from the instruction pointer on,
which moves past them. -/
theorem fetchOperands_eq {n : Nat} {m : Machine} (hroom : m.ip + 8 * n ≤ m.program.size) :
    fetchOperands n m =
      .ok (doublesOf n (m.program.bytes.toList.drop m.ip)) { m with ip := m.ip + 8 * n } := by
  induction n generalizing m with
  | zero => rfl
  | succ n ih =>
    have hat : m.program.doubleAt? m.ip =
        some (Double.ofBytes ((m.program.bytes.toList.drop m.ip).take 8)) := by
      rw [Program.doubleAt?, if_pos (by rw [Double.width]; omega), Program.doubleAt_eq]
    have hrest := ih (m := { m with ip := m.ip + 8 })
      (show m.ip + 8 + 8 * n ≤ m.program.size by omega)
    have hmoved : continueAt (m.ip + Double.width) m = .ok () { m with ip := m.ip + 8 } := rfl
    have hip : m.ip + 8 + 8 * n = m.ip + 8 * (n + 1) := by omega
    rw [fetchOperands, get_bind]
    simp only [hat]
    rw [bind_of_ok hmoved, bind_of_ok hrest, doublesOf, List.drop_drop, hip]
    rfl

/-- A machine reads the instruction that is decoded at its instruction pointer. -/
theorem fetch_of_decodeAt {m : Machine} {d : Placed} (hd : m.program.decodeAt m.ip = .ok d) :
    fetch m = .ok d.toInstruction { m with current := m.ip, ip := d.next } := by
  obtain ⟨byte, hbyte, hop, hfits, hoffset, hoperands⟩ := Program.decodeAt_eq_ok hd
  have hsize : d.opcode.size = 1 + 8 * d.opcode.arity := rfl
  have hrest := fetchOperands_eq (n := d.opcode.arity)
    (m := { m with current := m.ip, ip := m.ip + 1 })
    (show m.ip + 1 + 8 * d.opcode.arity ≤ m.program.size by omega)
  have hnext : d.next = m.ip + 1 + 8 * d.opcode.arity := by
    rw [Placed.next, hoffset, hsize]
    omega
  rw [fetch, get_bind]
  simp only [hbyte]
  rw [set_bind]
  simp only [hop]
  rw [bind_of_ok hrest, ← Program.operandsAt_eq, ← hoperands, ← hnext]
  rfl

/-- A step carries out the instruction that is decoded at the instruction pointer. -/
theorem step_of_decodeAt {m : Machine} {d : Placed} (hd : m.program.decodeAt m.ip = .ok d) :
    step m = exec d.toInstruction { m with current := m.ip, ip := d.next } := by
  rw [step, bind_of_ok (fetch_of_decodeAt hd)]

end StackMachine.Machine
