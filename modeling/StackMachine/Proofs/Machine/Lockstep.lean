import StackMachine.Proofs.Machine.Effect

/-!
# Two machines in lockstep

Two machines are alike if no instruction can tell them apart: they agree in everything but
the capacities of their stacks, and their programs say the same at every instruction.  Then
they stay alike step by step.  An instruction completes on both or fails on both, and the
errors are the same but for what an error shows of the instruction itself.

The rules follow an instruction on both machines at once, part by part.  What they need of a
stack is that none of its operations can tell two stacks with the same elements apart.

Main definitions:

- `GuardedStack.Alike`, stacks that may differ in their capacities;
- `Alike`, machines that are alike;
- `Together`, what two actions lead to from two machines;
- `Program.Agrees`, programs that say the same at every instruction.

Main results:

- Theorems `together_bind`, `together_popValue` and the others: the parts of instructions.
- Theorem `exec_together`: an instruction keeps two machines alike.
- Theorems `run_together`, `runs_together`: so does a run, and it ends on both in the same way.
- Theorem `capacity_unobservable`: the initial capacity of the stacks changes nothing that can
  be seen.
-/

namespace StackMachine

/-! ## Stacks -/

namespace GuardedStack

variable {α : Type} [Guarded α] {s t : GuardedStack α}

/-- Two stacks with their guards in order and the same elements. -/
structure Alike (s t : GuardedStack α) : Prop where
  left : s.Intact
  right : t.Intact
  elements : s.toList = t.toList

namespace Alike

/-- Empty stacks are alike, whatever their capacities. -/
theorem empty (capacity capacity' : Nat) :
    (GuardedStack.empty capacity : GuardedStack α).Alike (GuardedStack.empty capacity') :=
  ⟨intact_empty capacity, intact_empty capacity', rfl⟩

theorem size (h : s.Alike t) : s.size = t.size := by
  rw [size_eq, size_eq, h.elements]

theorem top? (h : s.Alike t) : s.top? = t.top? := by
  rw [top?_eq, top?_eq, h.elements]

theorem get? (h : s.Alike t) (i : Nat) : s.get? i = t.get? i := by
  rw [get?_eq, get?_eq, h.elements]

theorem verify (h : s.Alike t) : s.verify = t.verify := by
  rw [verify_eq_none.mpr h.left, verify_eq_none.mpr h.right]

/-- The same value can be pushed on stacks that are alike. -/
theorem push (h : s.Alike t) (a : α) :
    ∃ s' t', s.push a = .ok s' ∧ t.push a = .ok t' ∧ s'.Alike t' := by
  obtain ⟨s', hs, hs', hslist⟩ := push_of_intact h.left a
  obtain ⟨t', ht, ht', htlist⟩ := push_of_intact h.right a
  exact ⟨s', t', hs, ht, hs', ht', by rw [hslist, htlist, h.elements]⟩

/-- Stacks that are alike are both empty, or the same value can be popped from both. -/
theorem tryPop (h : s.Alike t) :
    (s.tryPop = .ok (none, s) ∧ t.tryPop = .ok (none, t)) ∨
      ∃ a s' t', s.tryPop = .ok (some a, s') ∧ t.tryPop = .ok (some a, t') ∧ s'.Alike t' := by
  rcases List.eq_nil_or_concat s.toList with hnil | ⟨as, a, hlist⟩
  · exact .inl ⟨tryPop_of_nil h.left hnil, tryPop_of_nil h.right (h.elements ▸ hnil)⟩
  · rw [List.concat_eq_append] at hlist
    obtain ⟨s', hs, hs', hslist⟩ := tryPop_of_append h.left hlist
    obtain ⟨t', ht, ht', htlist⟩ := tryPop_of_append h.right (h.elements ▸ hlist)
    exact .inr ⟨a, s', t', hs, ht, hs', ht', hslist.trans htlist.symm⟩

/-- Stacks that are alike can be truncated to the same length. -/
theorem truncate (h : s.Alike t) (length : Nat) :
    ∃ s' t', s.truncate length = .ok s' ∧ t.truncate length = .ok t' ∧ s'.Alike t' := by
  obtain ⟨s', hs, hs', hslist⟩ := truncate_of_intact h.left length
  obtain ⟨t', ht, ht', htlist⟩ := truncate_of_intact h.right length
  exact ⟨s', t', hs, ht, hs', ht', by rw [hslist, htlist, h.elements]⟩

/-- A value can be replaced in both of two stacks that are alike, or in neither. -/
theorem set (h : s.Alike t) (i : Nat) (a : α) :
    (s.set i a = .ok (false, s) ∧ t.set i a = .ok (false, t)) ∨
      ∃ s' t', s.set i a = .ok (true, s') ∧ t.set i a = .ok (true, t') ∧ s'.Alike t' := by
  rcases Nat.lt_or_ge i s.toList.length with hlt | hge
  · obtain ⟨s', hs, hs', hslist⟩ := set_of_lt h.left hlt a
    obtain ⟨t', ht, ht', htlist⟩ := set_of_lt h.right (h.elements ▸ hlt) a
    exact .inr ⟨s', t', hs, ht, hs', ht', by rw [hslist, htlist, h.elements]⟩
  · exact .inl ⟨set_of_le h.left hge a, set_of_le h.right (h.elements ▸ hge) a⟩

end Alike

end GuardedStack

/-! ## Programs -/

/-- Two instructions at an offset say the same: the operand of a push decodes to the same, that
of a pop does up to an immediate, and any other operand stands for the same number.  Errors
that show the slot an instruction refers to are related. -/
structure Instruction.Agrees (E : Error → Error → Prop) (offset : Nat) (i j : Instruction) :
    Prop where
  opcode : i.opcode = j.opcode
  pushed : i.opcode = .push → ∃ x,
    Operand.decode Opcode.push.mnemonic offset (i.operand 0) (i.operand 1) = .ok x ∧
    Operand.decode Opcode.push.mnemonic offset (j.operand 0) (j.operand 1) = .ok x
  popped : i.opcode = .pop → ∃ x y,
    Operand.decode Opcode.pop.mnemonic offset (i.operand 0) (i.operand 1) = .ok x ∧
    Operand.decode Opcode.pop.mnemonic offset (j.operand 0) (j.operand 1) = .ok y ∧
    (x = y ∨ ∃ v w, x = .imm v ∧ y = .imm w)
  number : i.opcode ≠ .push → i.opcode ≠ .pop →
    ∀ k < i.opcode.arity, (i.operand k).index? = (j.operand k).index?
  slot : ∀ instruction offset available,
    E (.run (.slotOutOfRange instruction offset (i.operand 0) available))
      (.run (.slotOutOfRange instruction offset (j.operand 0) available))

/-- Two programs of one length say the same at every instruction of the first. -/
structure Program.Agrees (E : Error → Error → Prop) (p q : Program) : Prop where
  size : p.size = q.size
  instruction : ∀ ds, p.decode = .ok ds → ∀ d ∈ ds, ∃ e : Placed,
    q.decodeAt d.offset = .ok e ∧
      Instruction.Agrees E d.offset d.toInstruction e.toInstruction

/-- Instructions that agree end at the same offset. -/
theorem Instruction.Agrees.next_eq {E : Error → Error → Prop} {q : Program} {d e : Placed}
    (h : Instruction.Agrees E d.offset d.toInstruction e.toInstruction)
    (he : q.decodeAt d.offset = .ok e) : d.next = e.next := by
  obtain ⟨_, _, _, _, hoffset, _⟩ := Program.decodeAt_eq_ok he
  rw [Placed.next, Placed.next, hoffset, h.opcode]

namespace Machine

/-! ## Machines -/

/-- Two machines with the given programs that are alike in everything else, but for the
capacities of their stacks. -/
structure Alike (p q : Program) (m n : Machine) : Prop where
  left : m.program = p
  right : n.program = q
  ip : m.ip = n.ip
  current : m.current = n.current
  halted : m.halted = n.halted
  stack : m.stack.Alike n.stack
  frames : m.frames.Alike n.frames
  registers : m.registers = n.registers
  ram : m.ram = n.ram
  console : m.console = n.console
  canvas : m.canvas = n.canvas
  notes : m.notes = n.notes

/-- Two actions have failed, with errors that are related, and left machines that are alike. -/
def FailAlike (p q : Program) (E : Error → Error → Prop) (r r' : Interrupt) (m n : Machine) :
    Prop :=
  ∃ e e', r = .failure e ∧ r' = .failure e' ∧ E e e' ∧ Alike p q m n

/-- What two actions lead to from two machines: `done` if both complete, and `stopped` if both
are interrupted.  They do not end differently. -/
def Together {α β : Type} (x : Exec α) (y : Exec β) (m n : Machine)
    (done : α → β → Machine → Machine → Prop)
    (stopped : Interrupt → Interrupt → Machine → Machine → Prop) : Prop :=
  match x m, y n with
  | .ok a m', .ok b n' => done a b m' n'
  | .error r m', .error r' n' => stopped r r' m' n'
  | _, _ => False

section Rules

variable {α β γ δ : Type} {m n : Machine}

/-! ## Composition -/

section Composition

variable {done : γ → δ → Machine → Machine → Prop}
  {stopped : Interrupt → Interrupt → Machine → Machine → Prop}

/-- One action after another, on both machines. -/
theorem together_bind {x : Exec α} {y : Exec β} {f : α → Exec γ} {g : β → Exec δ}
    (h : Together x y m n (fun a b m' n' => Together (f a) (g b) m' n' done stopped) stopped) :
    Together (x >>= f) (y >>= g) m n done stopped := by
  unfold Together at h ⊢
  simp only [bind, EStateM.bind]
  cases hx : x m <;> cases hy : y n <;> simp only [hx, hy] at h ⊢
  · exact h
  · exact h

/-- Actions that lead somewhere together lead to all that follows from it. -/
theorem Together.mono {x : Exec γ} {y : Exec δ} {done' : γ → δ → Machine → Machine → Prop}
    (h : Together x y m n done stopped)
    (hdone : ∀ c d m' n', done c d m' n' → done' c d m' n') : Together x y m n done' stopped := by
  unfold Together at h ⊢
  cases hx : x m <;> cases hy : y n <;> simp only [hx, hy] at h ⊢
  · exact hdone _ _ _ _ h
  · exact h

theorem together_pure {c : γ} {d : δ} :
    Together (pure c) (pure d) m n done stopped ↔ done c d m n := Iff.rfl

theorem together_get_bind {f : Machine → Exec γ} {g : Machine → Exec δ} :
    Together (get >>= f) (get >>= g) m n done stopped ↔
      Together (f m) (g n) m n done stopped := Iff.rfl

theorem together_fail {e e' : Error} :
    Together (fail e) (fail e') m n done stopped ↔
      stopped (.failure e) (.failure e') m n := Iff.rfl

theorem together_failRun {e e' : RunError} :
    Together (failRun e) (failRun e') m n done stopped ↔
      stopped (.failure (.run e)) (.failure (.run e')) m n := Iff.rfl

theorem together_failCode {e e' : CodeError} :
    Together (failCode e) (failCode e') m n done stopped ↔
      stopped (.failure (.code e)) (.failure (.code e')) m n := Iff.rfl

theorem together_set {m' n' : Machine} {done : PUnit → PUnit → Machine → Machine → Prop} :
    Together (set m') (set n') m n done stopped ↔ done () () m' n' := Iff.rfl

theorem together_modify {f g : Machine → Machine}
    {done : PUnit → PUnit → Machine → Machine → Prop} :
    Together (modify f) (modify g) m n done stopped ↔ done () () (f m) (g n) := Iff.rfl

theorem together_discard {x : Exec α} {y : Exec β}
    {done : Unit → Unit → Machine → Machine → Prop}
    (h : Together x y m n (fun _ _ m' n' => done () () m' n') stopped) :
    Together (discard x) (discard y) m n done stopped := by
  unfold Together at h ⊢
  simp only [discard, Functor.mapConst, EStateM.map, Function.comp]
  cases hx : x m <;> cases hy : y n <;> simp only [hx, hy] at h ⊢
  · exact h
  · exact h

end Composition

variable {p q : Program} {E : Error → Error → Prop}

/-- Two actions keep machines alike. -/
abbrev InStep (p q : Program) (E : Error → Error → Prop) (x y : Exec Unit) (m n : Machine) : Prop :=
  Together x y m n (fun _ _ => Alike p q) (FailAlike p q E)

/-- Machines that are alike may fail with errors that are related. -/
theorem Alike.fails (h : Alike p q m n) {e e' : Error} (he : E e e') :
    FailAlike p q E (.failure e) (.failure e') m n := ⟨e, e', rfl, rfl, he, h⟩

/-- Machines stay alike when they are given value stacks that are. -/
theorem Alike.with_stack (h : Alike p q m n) {s t : GuardedStack Double} (hst : s.Alike t) :
    Alike p q { m with stack := s } { n with stack := t } := { h with stack := hst }

/-- Machines stay alike when they are given frame stacks that are. -/
theorem Alike.with_frames (h : Alike p q m n) {s t : GuardedStack Frame} (hst : s.Alike t) :
    Alike p q { m with frames := s } { n with frames := t } := { h with frames := hst }

/-! ## Parts of instructions -/

/-- Both machines go on at the same offset. -/
theorem continueAt_together (h : Alike p q m n) (offset : Nat) :
    InStep p q E (continueAt offset) (continueAt offset) m n :=
  together_modify.mpr { h with ip := rfl }

/-- Both machines write the same into their logs. -/
theorem note_together (h : Alike p q m n) (text : String) :
    InStep p q E (note text) (note text) m n :=
  together_modify.mpr { h with notes := congrArg (text :: ·) h.notes }

/-- Both machines push the same value. -/
theorem pushValue_together (h : Alike p q m n) (v : Double) :
    InStep p q E (pushValue v) (pushValue v) m n := by
  obtain ⟨s, t, hs, ht, hst⟩ := h.stack.push v
  rw [pushValue, InStep, together_get_bind]
  simp only [hs, ht, together_set]
  exact h.with_stack hst

/-- Both machines keep the same lowest values. -/
theorem truncateStack_together (h : Alike p q m n) (height : Nat) :
    InStep p q E (truncateStack height) (truncateStack height) m n := by
  obtain ⟨s, t, hs, ht, hst⟩ := h.stack.truncate height
  rw [truncateStack, InStep, together_get_bind]
  simp only [hs, ht, together_set]
  exact h.with_stack hst

/-- Both machines push the same frame. -/
theorem pushFrame_together (h : Alike p q m n) (f : Frame) :
    InStep p q E (pushFrame f) (pushFrame f) m n := by
  obtain ⟨s, t, hs, ht, hst⟩ := h.frames.push f
  rw [pushFrame, InStep, together_get_bind]
  simp only [hs, ht, together_set]
  exact h.with_frames hst

/-- What follows an action that keeps machines alike starts from machines that are alike. -/
theorem InStep.bind {x y : Exec Unit} {f g : Unit → Exec γ}
    {done : γ → γ → Machine → Machine → Prop} (hx : InStep p q E x y m n)
    (hf : ∀ m' n', Alike p q m' n' → Together (f ()) (g ()) m' n' done (FailAlike p q E)) :
    Together (x >>= f) (y >>= g) m n done (FailAlike p q E) :=
  together_bind (hx.mono fun _ _ m' n' h => hf m' n' h)

/-- Both machines push the same number of zeros. -/
theorem pushZeros_together (h : Alike p q m n) (count : Nat) :
    InStep p q E (pushZeros count) (pushZeros count) m n := by
  induction count generalizing m n with
  | zero => exact h
  | succ count ih =>
    rw [pushZeros]
    exact (pushValue_together h _).bind fun _ _ h' => ih h'

section Taking

variable {done : Double → Double → Machine → Machine → Prop}

/-- Both machines pop the same value, or neither has one. -/
theorem together_popValue {op : Opcode} (hE : ∀ e, E e e) (h : Alike p q m n)
    (hdone : ∀ v m' n', Alike p q m' n' → done v v m' n') :
    Together (popValue op) (popValue op) m n done (FailAlike p q E) := by
  rw [popValue, together_get_bind]
  rcases h.stack.tryPop with ⟨hs, ht⟩ | ⟨v, s, t, hs, ht, hst⟩
  · simp only [hs, ht, h.current, together_failRun]
    exact h.fails (hE _)
  · simp only [hs, ht]
    exact together_bind (together_set.mpr (together_pure.mpr (hdone v _ _ (h.with_stack hst))))

end Taking

section Frames

variable {done : Frame → Frame → Machine → Machine → Prop}

/-- Both machines pop the same frame, or neither has one. -/
theorem together_popFrame {op : Opcode} (hE : ∀ e, E e e) (h : Alike p q m n)
    (hdone : ∀ f m' n', Alike p q m' n' → done f f m' n') :
    Together (popFrame op) (popFrame op) m n done (FailAlike p q E) := by
  rw [popFrame, together_get_bind]
  rcases h.frames.tryPop with ⟨hs, ht⟩ | ⟨f, s, t, hs, ht, hst⟩
  · simp only [hs, ht, h.current, together_failRun]
    exact h.fails (hE _)
  · simp only [hs, ht]
    exact together_bind (together_set.mpr (together_pure.mpr (hdone f _ _ (h.with_frames hst))))

/-- Both machines have the same current frame, or neither has one. -/
theorem together_currentFrame {op : Opcode} (hE : ∀ e, E e e) (h : Alike p q m n)
    (hdone : ∀ f, done f f m n) :
    Together (currentFrame op) (currentFrame op) m n done (FailAlike p q E) := by
  rw [currentFrame, together_get_bind, ← h.frames.top?]
  cases m.frames.top? with
  | none =>
    rw [h.current]
    exact together_failRun.mpr (h.fails (hE _))
  | some f => exact together_pure.mpr (hdone f)

end Frames

/-- Both machines unwind a call, or both have too few values. -/
theorem together_unwind {op : Opcode} {f : Frame} (hE : ∀ e, E e e) (h : Alike p q m n) :
    InStep p q E (unwind op f) (unwind op f) m n := by
  rw [unwind, InStep, together_get_bind, ← h.stack.size, h.current]
  split
  · exact together_failRun.mpr (h.fails (hE _))
  · exact (truncateStack_together h _).bind fun _ _ h' => continueAt_together h' _

/-! ## Operands -/

section Operands

variable {done : Nat → Nat → Machine → Machine → Prop}

/-- Numbers that are the same index are the same target of a jump. -/
theorem together_targetOf {v w : Double} (hE : ∀ e, E e e) (h : Alike p q m n)
    (hsize : p.size = q.size) (hindex : v.index? = w.index?) (hdone : ∀ t, done t t m n) :
    Together (targetOf v) (targetOf w) m n done (FailAlike p q E) := by
  rw [targetOf, targetOf, together_get_bind, ← hindex, h.left, h.right, ← hsize, h.current]
  cases v.index? with
  | none => exact together_failCode.mpr (h.fails (hE _))
  | some t =>
    dsimp only
    split
    · exact together_pure.mpr (hdone t)
    · exact together_failCode.mpr (h.fails (hE _))

/-- Numbers that are the same index are the same slot, or errors that are related. -/
theorem together_slotOf {op : Opcode} {v w : Double} {available : Nat} (h : Alike p q m n)
    (hindex : v.index? = w.index?)
    (hslot : ∀ instruction offset available,
      E (.run (.slotOutOfRange instruction offset v available))
        (.run (.slotOutOfRange instruction offset w available)))
    (hdone : ∀ s, done s s m n) :
    Together (slotOf op v available) (slotOf op w available) m n done (FailAlike p q E) := by
  rw [slotOf, slotOf, together_get_bind, ← hindex, h.current]
  cases v.index? with
  | none => exact together_failRun.mpr (h.fails (hslot _ _ _))
  | some s =>
    dsimp only
    split
    · exact together_pure.mpr (hdone s)
    · exact together_failRun.mpr (h.fails (hslot _ _ _))

/-- Stack operands that can be decoded are found. -/
theorem together_operandOf {op : Opcode} {mode value mode' value' : Double} {x y : Operand}
    {done : Operand → Operand → Machine → Machine → Prop}
    {stopped : Interrupt → Interrupt → Machine → Machine → Prop}
    (hx : Operand.decode op.mnemonic m.current mode value = .ok x)
    (hy : Operand.decode op.mnemonic n.current mode' value' = .ok y) (hdone : done x y m n) :
    Together (operandOf op mode value) (operandOf op mode' value') m n done stopped := by
  rw [operandOf, operandOf, together_get_bind]
  simp only [hx, hy, together_pure]
  exact hdone

/-- Both machines compute the same address, or none of the memory. -/
theorem together_addressOf {op : Opcode} {base : Option Register} {displacement : Fin ramSize}
    {done : Fin ramSize → Fin ramSize → Machine → Machine → Prop} (hE : ∀ e, E e e)
    (h : Alike p q m n) (hdone : ∀ a, done a a m n) :
    Together (addressOf op base displacement) (addressOf op base displacement) m n done
      (FailAlike p q E) := by
  rw [addressOf, together_get_bind, h.registers, h.current]
  dsimp only
  split
  · split
    · exact together_pure.mpr (hdone _)
    · exact together_failRun.mpr (h.fails (hE _))
  · exact together_failRun.mpr (h.fails (hE _))

end Operands

/-! ## Instructions -/

section Instructions

variable (hE : ∀ e, E e e) (h : Alike p q m n)
include hE h

/-- Pushes of the same operand keep machines alike. -/
theorem execPush_together {mode value mode' value' : Double} {x : Operand}
    (hx : Operand.decode Opcode.push.mnemonic m.current mode value = .ok x)
    (hy : Operand.decode Opcode.push.mnemonic n.current mode' value' = .ok x) :
    InStep p q E (execPush mode value) (execPush mode' value') m n := by
  rw [execPush, execPush]
  refine together_bind (together_operandOf hx hy ?_)
  cases x with
  | imm v => exact pushValue_together h v
  | reg r =>
    rw [together_get_bind, h.registers]
    exact pushValue_together h _
  | mem base displacement =>
    refine together_bind (together_addressOf hE h fun a => ?_)
    rw [together_get_bind, h.ram]
    exact pushValue_together h _

/-- Where a pop discards its value, the immediates of the two instructions do not matter. -/
theorem execPop_together {mode value mode' value' : Double} {x y : Operand}
    (hx : Operand.decode Opcode.pop.mnemonic m.current mode value = .ok x)
    (hy : Operand.decode Opcode.pop.mnemonic n.current mode' value' = .ok y)
    (hxy : x = y ∨ ∃ v w, x = .imm v ∧ y = .imm w) :
    InStep p q E (execPop mode value) (execPop mode' value') m n := by
  rw [execPop, execPop]
  refine together_bind (together_operandOf hx hy ?_)
  refine together_bind (together_popValue hE h fun v m' n' h' => ?_)
  rcases hxy with rfl | ⟨_, _, rfl, rfl⟩
  · cases x with
    | imm _ => exact h'
    | reg r =>
      exact together_modify.mpr { h' with registers := congrArg (·.set r v) h'.registers }
    | mem base displacement =>
      refine together_bind (together_addressOf hE h' fun a => ?_)
      exact together_modify.mpr { h' with ram := congrArg (·.set a v) h'.ram }
  · exact h'

/-- Operations on two values keep machines alike. -/
theorem execBinary_together (op : BinaryOp) :
    InStep p q E (execBinary op) (execBinary op) m n := by
  rw [execBinary]
  refine together_bind (together_popValue hE h fun a m₁ n₁ h₁ => ?_)
  refine together_bind (together_popValue hE h₁ fun b m₂ n₂ h₂ => ?_)
  exact pushValue_together h₂ _

/-- Operations on one value keep machines alike. -/
theorem execUnary_together (op : UnaryOp) :
    InStep p q E (execUnary op) (execUnary op) m n := by
  rw [execUnary]
  refine together_bind (together_popValue hE h fun v m₁ n₁ h₁ => ?_)
  exact pushValue_together h₁ _

/-- Jumps to the same offset keep machines alike. -/
theorem jump_together {v w : Double} (hsize : p.size = q.size) (hindex : v.index? = w.index?) :
    InStep p q E (do continueAt (← targetOf v)) (do continueAt (← targetOf w)) m n :=
  together_bind (together_targetOf hE h hsize hindex fun t => continueAt_together h t)

/-- Conditional jumps to the same offset keep machines alike. -/
theorem execBranch_together {v w : Double} (hsize : p.size = q.size)
    (hindex : v.index? = w.index?) (condition : Condition) :
    InStep p q E (execBranch condition v) (execBranch condition w) m n := by
  rw [execBranch, execBranch]
  refine together_bind (together_popValue hE h fun a m₁ n₁ h₁ => ?_)
  refine together_bind (together_popValue hE h₁ fun b m₂ n₂ h₂ => ?_)
  refine (pushValue_together h₂ b).bind fun m₃ n₃ h₃ => ?_
  refine (pushValue_together h₃ a).bind fun m₄ n₄ h₄ => ?_
  split
  · exact jump_together hE h₄ hsize hindex
  · exact h₄

/-- Reading a number keeps machines alike, since their consoles are the same. -/
theorem execInput_together : InStep p q E execInput execInput m n := by
  rw [execInput, InStep, together_get_bind, h.console]
  rcases n.console.readNumber with ⟨result, console⟩
  have h' : Alike p q { m with console } { n with console } := { h with console := rfl }
  refine together_bind (together_set.mpr ?_)
  cases result with
  | ok v => exact pushValue_together h' v
  | error e => exact together_fail.mpr (h'.fails (hE _))

/-- So does printing one. -/
theorem execOutput_together : InStep p q E execOutput execOutput m n := by
  rw [execOutput]
  refine together_bind (together_popValue hE h fun v m₁ n₁ h₁ => ?_)
  rw [together_get_bind, h₁.console]
  rcases n₁.console.printNumber v with ⟨result, console⟩
  have h' : Alike p q { m₁ with console } { n₁ with console } := { h₁ with console := rfl }
  refine together_bind (together_set.mpr ?_)
  cases result with
  | ok _ => exact h'
  | error e => exact together_fail.mpr (h'.fails (hE _))

/-- Drawing the same picture keeps machines alike, since their canvases are the same. -/
theorem execDraw_together {width height length width' height' length' : Double} {w k c : Nat}
    (hwidth : width.index? = some w) (hwidth' : width'.index? = some w)
    (hheight : height.index? = some k) (hheight' : height'.index? = some k)
    (hlength : length.index? = some c) (hlength' : length'.index? = some c) (hc : c < ramSize) :
    InStep p q E (execDraw width height length) (execDraw width' height' length') m n := by
  have hcells : n.ram.first? c = some (n.ram.cells.toList.take c) := if_pos hc.le
  have hcells' : m.ram.first? c = some (n.ram.cells.toList.take c) := h.ram ▸ hcells
  rw [execDraw, execDraw, InStep, together_get_bind]
  simp only [hwidth, hwidth', hheight, hheight', hlength, hlength', Option.bind_some, hcells,
    hcells', h.canvas]
  split
  · rename_i canvas _
    have h' : Alike p q { m with canvas } { n with canvas } := { h with canvas := rfl }
    exact together_bind (together_set.mpr (note_together h' _))
  · exact together_fail.mpr (h.fails (hE _))

/-- Calls keep machines alike if the headers that they find declare the same. -/
theorem execCall_together {v w : Double} {header header' : Placed} {args locals : Nat}
    (hsize : p.size = q.size) (hv : v.index? = some header.offset)
    (hw : w.index? = some header.offset)
    (hheader : p.decodeAt header.offset = .ok header)
    (hheader' : q.decodeAt header.offset = .ok header')
    (hslots : declaredSlots m.current header = .ok (args, locals))
    (hslots' : declaredSlots n.current header' = .ok (args, locals))
    (hnext : header.next = header'.next) :
    InStep p q E (execCall v) (execCall w) m n := by
  have htarget {done : Nat → Nat → Machine → Machine → Prop}
      (hdone : done header.offset header.offset m n) :
      Together (targetOf v) (targetOf w) m n done (FailAlike p q E) := by
    have hlt : header.offset < p.size := by
      obtain ⟨_, _, _, hfits, _⟩ := Program.decodeAt_eq_ok hheader
      have := header.opcode.size_pos
      omega
    rw [targetOf, targetOf, together_get_bind, h.left, h.right, ← hsize]
    simp only [hv, hw, hlt, if_true, together_pure]
    exact hdone
  rw [execCall, execCall]
  refine together_bind (htarget ?_)
  rw [together_get_bind, h.left, h.right, hheader, hheader']
  simp only [hslots, hslots']
  rw [← h.stack.size, ← h.ip, ← hnext, h.current]
  split
  · exact together_failRun.mpr (h.fails (hE _))
  · refine (pushFrame_together h _).bind fun m₁ n₁ h₁ => ?_
    refine (pushZeros_together h₁ locals).bind fun m₂ n₂ h₂ => ?_
    exact continueAt_together h₂ _

/-- Headers with the same end keep machines alike. -/
theorem execHeader_together {v w : Double} (hindex : v.index? = w.index?) :
    InStep p q E (execHeader v) (execHeader w) m n := by
  rw [execHeader, execHeader, ← hindex]
  cases v.index? with
  | none =>
    rw [InStep, together_get_bind, h.current]
    exact together_failCode.mpr (h.fails (hE _))
  | some offset => exact continueAt_together h offset

theorem execEndFunc_together : InStep p q E execEndFunc execEndFunc m n := by
  rw [execEndFunc]
  exact together_bind (together_popFrame hE h fun f m₁ n₁ h₁ => continueAt_together h₁ _)

theorem execRet_together : InStep p q E execRet execRet m n := by
  rw [execRet]
  refine together_bind (together_currentFrame hE h fun f => ?_)
  refine together_bind (together_popValue hE h fun result m₁ n₁ h₁ => ?_)
  refine together_bind (together_discard (together_popFrame hE h₁ fun _ m₂ n₂ h₂ => ?_))
  refine (together_unwind hE h₂).bind fun m₃ n₃ h₃ => ?_
  exact pushValue_together h₃ result

theorem execLeave_together : InStep p q E execLeave execLeave m n := by
  rw [execLeave]
  exact together_bind (together_popFrame hE h fun f m₁ n₁ h₁ => together_unwind hE h₁)

section Slots

variable {v w : Double} (hindex : v.index? = w.index?)
  (hslot : ∀ instruction offset available,
    E (.run (.slotOutOfRange instruction offset v available))
      (.run (.slotOutOfRange instruction offset w available)))
include hindex hslot

/-- Reading the same local keeps machines alike. -/
theorem execGetLocal_together : InStep p q E (execGetLocal v) (execGetLocal w) m n := by
  rw [execGetLocal, execGetLocal]
  refine together_bind (together_currentFrame hE h fun f => ?_)
  refine together_bind (together_slotOf h hindex hslot fun s => ?_)
  rw [together_get_bind, ← h.stack.get?, ← h.stack.size, h.current]
  cases m.stack.get? (f.base + s) with
  | some value => exact pushValue_together h value
  | none => exact together_failRun.mpr (h.fails (hslot _ _ _))

/-- Reading the same argument keeps machines alike. -/
theorem execGetArg_together : InStep p q E (execGetArg v) (execGetArg w) m n := by
  rw [execGetArg, execGetArg]
  refine together_bind (together_currentFrame hE h fun f => ?_)
  refine together_bind (together_slotOf h hindex hslot fun s => ?_)
  rw [together_get_bind, ← h.stack.get?, h.current]
  cases m.stack.get? (f.base - 1 - s) with
  | some value => exact pushValue_together h value
  | none => exact together_failRun.mpr (h.fails (hslot _ _ _))

/-- Storing in the same local keeps machines alike. -/
theorem execSetLocal_together : InStep p q E (execSetLocal v) (execSetLocal w) m n := by
  rw [execSetLocal, execSetLocal]
  refine together_bind (together_currentFrame hE h fun f => ?_)
  refine together_bind (together_slotOf h hindex hslot fun s => ?_)
  refine together_bind (together_popValue hE h fun value m₁ n₁ h₁ => ?_)
  rw [together_get_bind]
  rcases h₁.stack.set (f.base + s) value with ⟨hs, ht⟩ | ⟨s', t', hs, ht, hst⟩
  · simp only [hs, ht, h₁.stack.size, h₁.current]
    exact together_failRun.mpr (h₁.fails (hslot _ _ _))
  · simp only [hs, ht]
    exact together_set.mpr (h₁.with_stack hst)

end Slots

end Instructions

end Rules

/-! ## Any instruction of a verified program -/

section Verified

variable {p q : Program} {E : Error → Error → Prop} {ds : List Placed} {m n : Machine}

/-- Headers that say the same declare the same slots. -/
theorem declaredSlots_of_agrees {header header' : Placed} {current args locals : Nat}
    (hagree : Instruction.Agrees E header.offset header.toInstruction header'.toInstruction)
    (hslots : declaredSlots current header = .ok (args, locals)) :
    declaredSlots current header' = .ok (args, locals) := by
  have hdeclared : header'.declared? = header.declared? := by
    unfold Placed.declared?
    rw [← hagree.opcode]
    cases hop : header.opcode with
    | framed =>
      have hindex (k : Nat) (hk : k < 3) :
          (header.operand k).index? = (header'.operand k).index? :=
        hagree.number (by simp [hop]) (by simp [hop]) k (by rw [hop]; exact hk)
      rw [hindex 1 (by decide), hindex 2 (by decide)]
    | _ => rfl
  rwa [declaredSlots_eq_ok_iff, hdeclared, ← declaredSlots_eq_ok_iff]

/-- An instruction of a verified program keeps machines alike. -/
theorem exec_together (hE : ∀ e, E e e) (hds : p.decode = .ok ds)
    (hadmits : ∀ d ∈ ds, ∀ x ∈ d.opcode.operands.zipIdx, CodeMap.Admits ⟨p.size, ds⟩ d x.1 x.2)
    (hpq : p.Agrees E q) {d e : Placed} (hd : d ∈ ds)
    (hde : Instruction.Agrees E d.offset d.toInstruction e.toInstruction) (h : Alike p q m n)
    (hcurrent : m.current = d.offset) :
    InStep p q E (exec d.toInstruction) (exec e.toInstruction) m n := by
  have hoperands := hadmits d hd
  have hnumber := hde.number
  have hslot := hde.slot
  unfold exec
  rw [← hde.opcode]
  cases hop : d.opcode with
  | stop => exact together_modify.mpr { h with halted := rfl }
  | push =>
    obtain ⟨x, hx, hy⟩ := hde.pushed hop
    rw [← hcurrent] at hx hy
    exact execPush_together hE h hx (h.current ▸ hy)
  | pop =>
    obtain ⟨x, y, hx, hy, hxy⟩ := hde.popped hop
    rw [← hcurrent] at hx hy
    exact execPop_together hE h hx (h.current ▸ hy) hxy
  | binary op => exact execBinary_together hE h op
  | input => exact execInput_together hE h
  | output => exact execOutput_together hE h
  | unary op => exact execUnary_together hE h op
  | endFunc => exact execEndFunc_together hE h
  | ret => exact execRet_together hE h
  | leave => exact execLeave_together hE h
  | jump =>
    rw [hop] at hnumber
    exact jump_together hE h hpq.size (hnumber nofun nofun 0 (by decide))
  | branch condition =>
    rw [hop] at hnumber
    exact execBranch_together hE h hpq.size (hnumber nofun nofun 0 Nat.one_pos) condition
  | func =>
    rw [hop] at hnumber
    exact execHeader_together hE h (hnumber nofun nofun 0 (by decide))
  | framed =>
    rw [hop] at hnumber
    exact execHeader_together hE h (hnumber nofun nofun 0 (by decide))
  | getLocal =>
    rw [hop] at hnumber
    exact execGetLocal_together hE h (hnumber nofun nofun 0 (by decide)) hslot
  | setLocal =>
    rw [hop] at hnumber
    exact execSetLocal_together hE h (hnumber nofun nofun 0 (by decide)) hslot
  | getArg =>
    rw [hop] at hnumber
    exact execGetArg_together hE h (hnumber nofun nofun 0 (by decide)) hslot
  | call =>
    rw [hop] at hnumber hoperands
    obtain ⟨t, hindex, _, _, ht⟩ := hoperands (.function, 0) (by decide)
    obtain ⟨header, hmem, rfl, hheader⟩ := CodeMap.isHeader_eq_true.mp ht
    -- Each machine reads the header of the function again, in its own program.
    obtain ⟨header', hdecode', hagree⟩ := hpq.instruction ds hds header hmem
    obtain ⟨args, locals, hslots, _, _⟩ :=
      declaredSlots_of_admits hheader (hadmits header hmem) m.current
    have hslots' := declaredSlots_of_agrees hagree hslots
    exact execCall_together hE h hpq.size hindex
      ((hnumber nofun nofun 0 (by decide)).symm.trans hindex)
      (Program.decodeAt_of_mem hds hmem) hdecode' hslots (h.current ▸ hslots')
      (hagree.next_eq hdecode')
  | draw =>
    rw [hop] at hnumber hoperands
    obtain ⟨w, hwidth⟩ := hoperands (.count, 0) (by decide)
    obtain ⟨k, hheight⟩ := hoperands (.count, 1) (by decide)
    obtain ⟨c, hlength, hc⟩ := hoperands (.length, 2) (by decide)
    have hequal (k : Nat) (hk : k < 3) : (e.operand k).index? = (d.operand k).index? :=
      (hnumber nofun nofun k hk).symm
    exact execDraw_together hE h hwidth ((hequal 0 (by decide)).trans hwidth) hheight
      ((hequal 1 (by decide)).trans hheight) hlength ((hequal 2 (by decide)).trans hlength) hc

/-- Machines that are alike stop together, if their programs have the same size. -/
theorem Alike.isRunning (h : Alike p q m n) (hsize : p.size = q.size) :
    m.isRunning = n.isRunning := by
  rw [Machine.isRunning, Machine.isRunning, h.halted, h.ip, h.left, h.right, hsize]

/-- A step of a verified program keeps machines alike. -/
theorem step_together (hE : ∀ e, E e e) (hp : p.verify = .ok ()) (hpq : p.Agrees E q)
    (hm : Safe p m) (h : Alike p q m n) (hrunning : m.isRunning = true) :
    InStep p q E step step m n := by
  obtain ⟨ds, hds, hadmits⟩ := Program.verify_eq_ok.mp hp
  obtain ⟨d, hd, hoffset, hdecode⟩ := hm.decodeAt_ip hds hrunning
  obtain ⟨e, he, hde⟩ := hpq.instruction ds hds d hd
  have hdecode' : n.program.decodeAt n.ip = .ok e := by
    rw [h.right, ← h.ip, ← hoffset]
    exact he
  unfold InStep Together
  rw [step_of_decodeAt hdecode, step_of_decodeAt hdecode']
  exact exec_together hE hds hadmits hpq hd hde
    { h with ip := hde.next_eq he, current := h.ip } hoffset.symm

/-! ## Runs -/

/-- Two runs have ended in the same way, with errors that are related. -/
def Outcome.Related (E : Error → Error → Prop) : Outcome → Outcome → Prop
  | .finished, .finished => True
  | .outOfSteps, .outOfSteps => True
  | .interrupted (.failure e), .interrupted (.failure e') => E e e'
  | _, _ => False

/-- Any number of steps of a verified program keep machines alike. -/
theorem runSteps_together (hE : ∀ e, E e e) (hp : p.verify = .ok ()) (hpq : p.Agrees E q)
    (hm : Safe p m) (h : Alike p q m n) (k : Nat) :
    Outcome.Related E (runSteps k m).1 (runSteps k n).1 ∧
      Alike p q (runSteps k m).2 (runSteps k n).2 := by
  induction k generalizing m n with
  | zero =>
    rw [runSteps, runSteps, ← h.isRunning hpq.size]
    refine ⟨?_, h⟩
    cases m.isRunning <;> trivial
  | succ k ih =>
    rw [runSteps, runSteps, ← h.isRunning hpq.size]
    cases hrunning : m.isRunning with
    | false => exact ⟨trivial, h⟩
    | true =>
      have hstep := step_together hE hp hpq hm h hrunning
      unfold InStep Together at hstep
      cases hx : step m with
      | ok _ m' =>
        cases hy : step n with
        | ok _ n' =>
          rw [hx, hy] at hstep
          have hsafe : Safe p m' := advance_of_ok hrunning hx ▸ safe_advance hp hm
          exact ih hsafe hstep
        | error _ _ =>
          rw [hx, hy] at hstep
          exact hstep.elim
      | error r m' =>
        cases hy : step n with
        | ok _ _ =>
          rw [hx, hy] at hstep
          exact hstep.elim
        | error r' n' =>
          rw [hx, hy] at hstep
          obtain ⟨e, e', rfl, rfl, he, halike⟩ := hstep
          exact ⟨he, halike⟩

/-- Machines stay alike when a run starts. -/
theorem Alike.noteStart (h : Alike p q m n) (hsize : p.size = q.size) :
    Alike p q m.noteStart n.noteStart := by
  refine { h with notes := ?_ }
  have hlength : m.program.code.length = n.program.code.length := by
    rw [h.left, h.right, Program.code, Program.code, Program.length_drop_toList,
      Program.length_drop_toList, hsize]
  rw [Machine.noteStart, Machine.noteStart, hlength, h.notes]

/-- Machines stay alike when a run ends. -/
theorem Alike.noteEnd (h : Alike p q m n) {o o' : Outcome} (ho : Outcome.Related E o o') :
    Alike p q (noteEnd o m) (noteEnd o' n) := by
  unfold Outcome.Related at ho
  split at ho
  · refine { h with notes := ?_ }
    rw [Machine.noteEnd, Machine.noteEnd, h.ip, h.stack.size, h.notes]
  · exact h
  · exact h
  · exact ho.elim

/-- A run keeps machines alike, and ends on both in the same way. -/
theorem run_together (hE : ∀ e, E e e) (hp : p.verify = .ok ()) (hpq : p.Agrees E q)
    (hm : Safe p m) (h : Alike p q m n) (k : Nat) :
    Outcome.Related E (run k m).1 (run k n).1 ∧ Alike p q (run k m).2 (run k n).2 := by
  have hstart : Safe p m.noteStart := hm.of_eq rfl rfl rfl rfl
  obtain ⟨ho, halike⟩ := runSteps_together hE hp hpq hstart (h.noteStart hpq.size) k
  exact ⟨ho, halike.noteEnd ho⟩

/-- Machines stay alike through any runs, one after the other. -/
theorem afterRuns_together (hE : ∀ e, E e e) (hp : p.verify = .ok ()) (hpq : p.Agrees E q)
    (hm : Safe p m) (h : Alike p q m n) (budgets : List Nat) :
    Alike p q (afterRuns budgets m) (afterRuns budgets n) := by
  induction budgets generalizing m n with
  | nil => exact h
  | cons k budgets ih => exact ih (run_safe hp hm k) (run_together hE hp hpq hm h k).2

/-- Machines that start with the same surroundings are alike. -/
theorem alike_start (p q : Program) (capacity capacity' : Nat) (console : Console)
    (canvas : Canvas) :
    Alike p q (start p capacity console canvas) (start q capacity' console canvas) where
  left := rfl
  right := rfl
  ip := rfl
  current := rfl
  halted := rfl
  stack := .empty capacity capacity'
  frames := .empty capacity capacity'
  registers := rfl
  ram := rfl
  console := rfl
  canvas := rfl
  notes := rfl

/-- Machines that start alike are alike after any runs, and the next run ends on both in the
same way. -/
theorem runs_together (hE : ∀ e, E e e) (hp : p.verify = .ok ()) (hpq : p.Agrees E q)
    (capacity capacity' : Nat) (console : Console) (canvas : Canvas) (budgets : List Nat)
    (k : Nat) :
    let r := run k (afterRuns budgets (start p capacity console canvas))
    let r' := run k (afterRuns budgets (start q capacity' console canvas))
    Outcome.Related E r.1 r'.1 ∧ Alike p q r.2 r'.2 := by
  have hstart := safe_start hp capacity console canvas
  have halike := alike_start p q capacity capacity' console canvas
  exact run_together hE hp hpq (safe_afterRuns hp hstart budgets)
    (afterRuns_together hE hp hpq hstart halike budgets) k

/-- A program that verifies is loaded. -/
theorem load_of_verify (hp : p.verify = .ok ()) (capacity : Nat) (console : Console)
    (canvas : Canvas) :
    load p capacity console canvas = .ok (start p capacity console canvas) := by
  rw [load, hp]
  rfl

end Verified

/-! ## What can be seen -/

/-- Two machines look the same: where they are, what they hold, what they have printed and
have left to read, and the picture they have written. -/
structure SameView (m n : Machine) : Prop where
  ip : m.ip = n.ip
  halted : m.halted = n.halted
  values : m.stack.toList = n.stack.toList
  frames : m.frames.toList = n.frames.toList
  registers : m.registers = n.registers
  ram : m.ram = n.ram
  console : m.console = n.console
  canvas : m.canvas = n.canvas

section View

variable {p q : Program} {m n : Machine}

/-- Machines that are alike show the same. -/
theorem Alike.sameView (h : Alike p q m n) : SameView m n where
  ip := h.ip
  halted := h.halted
  values := h.stack.elements
  frames := h.frames.elements
  registers := h.registers
  ram := h.ram
  console := h.console
  canvas := h.canvas

/-- Machines with one program that are alike are dumped as the same text. -/
theorem Alike.dump (h : Alike p p m n) : m.dump = n.dump := by
  have hname : m.currentName = n.currentName := by
    rw [currentName, currentName, h.left, h.right, h.current]
  have hstack : m.dumpStack = n.dumpStack := by rw [dumpStack, dumpStack, h.stack.elements]
  have hguard : m.dumpGuard = n.dumpGuard := by rw [dumpGuard, dumpGuard, h.stack.verify]
  unfold Machine.dump
  rw [hname, hstack, hguard, h.current, h.registers, h.frames.size, h.frames.elements]

/-- A verified program says the same as itself. -/
theorem agrees_self (hp : p.verify = .ok ()) : p.Agrees Eq p := by
  obtain ⟨ds, hds, hadmits⟩ := Program.verify_eq_ok.mp hp
  refine ⟨rfl, fun ds' hds' d hd => ⟨d, Program.decodeAt_of_mem hds' hd, ?_⟩⟩
  rw [hds] at hds'
  cases hds'
  have hoperands := hadmits d hd
  refine ⟨rfl, fun hop => ?_, fun hop => ?_, fun _ _ _ _ => rfl, fun _ _ _ => rfl⟩
  · rw [hop] at hoperands
    obtain ⟨x, hx⟩ := hoperands (.mode, 0) (by decide)
    rw [hop] at hx
    exact ⟨x, hx, hx⟩
  · rw [hop] at hoperands
    obtain ⟨x, hx⟩ := hoperands (.mode, 0) (by decide)
    rw [hop] at hx
    exact ⟨x, x, hx, hx, .inl rfl⟩

theorem Outcome.eq_of_related {o o' : Outcome} (h : Outcome.Related Eq o o') : o = o' := by
  unfold Outcome.Related at h
  split at h
  · rfl
  · rfl
  · rw [h]
  · exact h.elim

end View

/-- Two machines that run a verified program with stacks of different initial capacities
cannot be told apart: after any runs, another run for any number of steps ends in the same
way on both, and they look the same then. -/
theorem capacity_unobservable {p : Program} (hp : p.verify = .ok ()) (capacity capacity' : Nat)
    (console : Console) (canvas : Canvas) :
    ∃ m₀ n₀, load p capacity console canvas = .ok m₀ ∧ load p capacity' console canvas = .ok n₀ ∧
      ∀ (budgets : List Nat) (steps : Nat),
        let r := run steps (afterRuns budgets m₀)
        let r' := run steps (afterRuns budgets n₀)
        r.1 = r'.1 ∧ SameView r.2 r'.2 ∧ r.2.dump = r'.2.dump := by
  refine ⟨_, _, load_of_verify hp capacity console canvas,
    load_of_verify hp capacity' console canvas, fun budgets steps => ?_⟩
  obtain ⟨ho, halike⟩ := runs_together Eq.refl hp (agrees_self hp) capacity capacity' console
    canvas budgets steps
  exact ⟨Outcome.eq_of_related ho, halike.sameView, halike.dump⟩

/-- Three pushes and an addition. -/
def growExample : Program :=
  .ofCode (List.flatMap Instruction.encode
    [⟨.push, [.ofNat 0, .ofNat 1]⟩, ⟨.push, [.ofNat 0, .ofNat 2]⟩, ⟨.push, [.ofNat 0, .ofNat 3]⟩,
     ⟨.binary .add, []⟩])

/-- A stack that has to grow holds the same values as one with room for them from the start. -/
theorem capacity_unobservable_growExample :
    growExample.verify = .ok () ∧
      ∃ m₀ n₀, load growExample 1 (.ofInput []) (.blank "" none) = .ok m₀ ∧
        load growExample 128 (.ofInput []) (.blank "" none) = .ok n₀ ∧
        (run 2 (afterRuns [2] m₀)).2.stack.toList = (run 2 (afterRuns [2] n₀)).2.stack.toList := by
  have hp : growExample.verify = .ok () := by decide +kernel
  obtain ⟨m₀, n₀, hm₀, hn₀, hruns⟩ :=
    capacity_unobservable hp 1 128 (.ofInput []) (.blank "" none)
  exact ⟨hp, m₀, n₀, hm₀, hn₀, (hruns [2] 2).2.1.values⟩

end Machine

end StackMachine
