import StackMachine.Proofs.Machine.Effect

/-!
# Accounting for the value stack

How many values an instruction needs, and how many there are after it, can be told before it
is carried out: from its opcode, the height of the stack, the frame of the current call and,
for a call, what the function declares.  An instruction fails for want of values exactly when
there are fewer than it needs, whatever else it checks before or after.

Main definitions:

- `Opcode.intake` and `Opcode.growth`, what an opcode alone says about the stack;
- `need`, the number of values that the next instruction needs;
- `heightAfter`, the height of the stack after it.

Main results:

- Theorems `Completed.need_le`, `Failed.need_iff`: an instruction fails for want of values
  exactly when there are fewer than it needs.
- Theorem `Completed.height_eq`: the height of the stack after an instruction that completes.
-/

namespace StackMachine

/-- The number of values that an instruction takes from the stack before it does anything
else. -/
def Opcode.intake : Opcode → Nat
  | pop | output | unary _ => 1
  | binary _ | branch _ => 2
  | _ => 0

/-- By how much an instruction that neither calls nor returns changes the height of the stack. -/
def Opcode.growth : Opcode → Int
  | push | input | getLocal | getArg => 1
  | pop | output | setLocal | binary _ => -1
  | _ => 0

/-- The numbers of arguments and locals that the function declares which an instruction
calls. -/
def Program.calleeSlots (p : Program) (i : Instruction) : Option (Nat × Nat) := do
  let target ← (i.operand 0).index?
  let header ← (p.decodeAt target).toOption
  header.declared?

namespace Machine

/-- The number of values that an instruction needs. -/
def need (i : Instruction) (m : Machine) : Nat :=
  match i.opcode, m.frames.top? with
  | .call, _ => ((m.program.calleeSlots i).map Prod.fst).getD 0
  | .ret, some f => f.callerDepth + 1
  | .leave, some f => f.callerDepth
  | .setLocal, some f =>
    match (i.operand 0).index? with
    | some s => if s < f.localCount then 1 else 0
    | none => 0
  | op, _ => op.intake

/-- The height of the value stack after an instruction that completes. -/
def heightAfter (i : Instruction) (m : Machine) : Nat :=
  let height := m.stack.size
  match i.opcode, m.frames.top? with
  | .push, _ | .input, _ | .getLocal, _ | .getArg, _ => height + 1
  | .pop, _ | .output, _ | .setLocal, _ | .binary _, _ => height - 1
  | .call, _ => height + ((m.program.calleeSlots i).map Prod.snd).getD 0
  | .ret, some f => f.callerDepth + 1
  | .leave, some f => f.callerDepth
  | _, _ => height

/-! ## One instruction -/

section Accounting

variable {i : Instruction} {m m' : Machine} {e : Error}

/-- What a call finds at its target is what the header of the function declares. -/
theorem calleeSlots_eq {p : Program} {current : Nat} {header : Placed} {args locals : Nat}
    (hindex : (i.operand 0).index? = some header.offset)
    (hheader : p.decodeAt header.offset = .ok header)
    (hslots : declaredSlots current header = .ok (args, locals)) :
    p.calleeSlots i = some (args, locals) := by
  obtain ⟨hdeclared, _, _⟩ := declaredSlots_eq_ok_iff.mp hslots
  simp [Program.calleeSlots, hindex, hheader, hdeclared, Except.toOption]

/-- An instruction that completes has found the values it needs. -/
theorem Completed.need_le (h : Completed i m m') : need i m ≤ m.stack.size := by
  rw [GuardedStack.size_eq]
  cases h with
  | still hop => rcases hop with hop | hop <;> simp [need, hop, Opcode.intake]
  | jumped hop =>
    rcases hop with hop | hop
    · simp [need, hop, Opcode.intake]
    · cases hop' : i.opcode <;> simp_all [need, Opcode.isHeader, Opcode.intake]
  | branched condition hop hheight => simpa [need, hop, Opcode.intake] using hheight
  | pushed v hop => rcases hop with hop | hop <;> simp [need, hop, Opcode.intake]
  | popped v hop hvalues =>
    rcases hop with hop | hop <;> simp [need, hop, Opcode.intake, hvalues]
  | unary op vs v hop hbefore => simp [need, hop, Opcode.intake, hbefore]
  | binary op vs v w hop hbefore => simp [need, hop, Opcode.intake, hbefore]
  | got fs f s v hop => rcases hop with hop | hop <;> simp [need, hop, Opcode.intake]
  | setLocal fs f s vs v hop htop hslot hlt hbefore =>
    simp [need, hop, top?_of_append htop, hslot, hlt, hbefore]
  | called header args locals hop hindex hheader hslots hargs =>
    simpa [need, hop, calleeSlots_eq hindex hheader hslots] using hargs
  | ended f hop => simp [need, hop, Opcode.intake]
  | returned f vs result hop hframes hbefore hdepth =>
    simpa [need, hop, top?_of_append hframes, hbefore] using hdepth
  | left f hop hframes hdepth => simpa [need, hop, top?_of_append hframes] using hdepth

/-- An instruction fails for want of values if there are fewer than it needs, and otherwise
for another reason. -/
theorem Failed.need_iff (h : Failed i m e m') :
    (e = underflow i m ∧ m.stack.size < need i m) ∨
      (e.isFatal = false ∧ need i m ≤ m.stack.size) := by
  rw [GuardedStack.size_eq]
  cases h with
  | noFrame hop hframes he =>
    refine Or.inr ⟨by rw [he]; rfl, ?_⟩
    have htop : m.frames.top? = none := by rw [GuardedStack.top?_eq, hframes]; rfl
    cases hop' : i.opcode <;> simp_all [need, Opcode.usesFrame, Opcode.intake]
  | noValue hop hempty he =>
    refine Or.inl ⟨he, ?_⟩
    rw [hempty]
    cases hop' : i.opcode <;> simp_all [need, Opcode.popsFirst, Opcode.intake]
  | noSecondValue v hop hbefore he =>
    refine Or.inl ⟨he, ?_⟩
    rcases hop with ⟨_, hop⟩ | ⟨_, hop⟩ <;> simp [need, hop, Opcode.intake, hbefore]
  | fewArguments header args locals hop hindex hheader hslots hargs he =>
    refine Or.inl ⟨he, ?_⟩
    simpa [need, hop, calleeSlots_eq hindex hheader hslots] using hargs
  | noResult hop hframes hempty he =>
    refine Or.inl ⟨he, ?_⟩
    rcases List.eq_nil_or_concat m.frames.toList with hnil | ⟨fs, f, htop⟩
    · exact absurd hnil hframes
    · rw [List.concat_eq_append] at htop
      simp [need, hop, top?_of_append htop, hempty]
  | shortReturn f result hop hframes hvalues hdepth he =>
    refine Or.inl ⟨he, ?_⟩
    simpa [need, hop, top?_of_append hframes, hvalues] using hdepth
  | shortLeave f hop hframes hvalues hdepth he =>
    refine Or.inl ⟨he, ?_⟩
    simpa [need, hop, top?_of_append hframes] using hdepth
  | noSlot fs f hop htop hslot he =>
    refine Or.inr ⟨by rw [he]; rfl, ?_⟩
    rcases hop with hop | hop | hop
    · simp [need, hop, Opcode.intake]
    · simp [need, hop, Opcode.intake]
    · cases hindex : (i.operand 0).index? with
      | none => simp [need, hop, top?_of_append htop, hindex]
      | some s =>
        have hge : f.localCount ≤ s := by simpa [hop, Frame.slotCount] using hslot s hindex
        simp [need, hop, top?_of_append htop, hindex, Nat.not_lt.mpr hge]
  | noCell fs f s available hop htop hslot hlt hcell he =>
    refine Or.inr ⟨by rw [he]; rfl, ?_⟩
    rcases hop with hop | hop <;> simp [need, hop, Opcode.intake]
  | noStoredValue fs f s hop htop hslot hlt hempty he =>
    refine Or.inl ⟨he, ?_⟩
    simp [need, hop, top?_of_append htop, hslot, hlt, hempty]
  | noStoringCell fs f s available v hop htop hslot hlt hvalues hcell he =>
    refine Or.inr ⟨by rw [he]; rfl, ?_⟩
    simp [need, hop, top?_of_append htop, hslot, hlt, hvalues]
  | badAddress address hop he =>
    refine Or.inr ⟨by rw [he]; rfl, ?_⟩
    simp [need, hop, Opcode.intake]
  | badStoreAddress address v hop hvalues he =>
    refine Or.inr ⟨by rw [he]; rfl, ?_⟩
    simp [need, hop, Opcode.intake, hvalues]
  | unprinted cause v hop hvalues he =>
    refine Or.inr ⟨by rw [he]; rfl, ?_⟩
    simp [need, hop, Opcode.intake, hvalues]
  | refused cause hop he =>
    refine Or.inr ⟨by rw [he]; rfl, ?_⟩
    rcases hop with hop | hop <;> simp [need, hop, Opcode.intake]

/-- The height of the stack after an instruction that completes. -/
theorem Completed.height_eq (h : Completed i m m') : m'.stack.size = heightAfter i m := by
  rw [GuardedStack.size_eq]
  cases h with
  | still hop hvalues =>
    rcases hop with hop | hop <;> simp [heightAfter, hop, GuardedStack.size_eq, hvalues]
  | jumped hop htarget hvalues =>
    rcases hop with hop | hop
    · simp [heightAfter, hop, GuardedStack.size_eq, hvalues]
    · cases hop' : i.opcode <;> simp_all [heightAfter, Opcode.isHeader, GuardedStack.size_eq]
  | branched condition hop hheight htarget hvalues =>
    simp [heightAfter, hop, GuardedStack.size_eq, hvalues]
  | pushed v hop hvalues =>
    rcases hop with hop | hop <;> simp [heightAfter, hop, GuardedStack.size_eq, hvalues]
  | popped v hop hvalues =>
    rcases hop with hop | hop <;> simp [heightAfter, hop, GuardedStack.size_eq, hvalues]
  | unary op vs v hop hbefore hvalues =>
    simp [heightAfter, hop, GuardedStack.size_eq, hbefore, hvalues]
  | binary op vs v w hop hbefore hvalues =>
    simp [heightAfter, hop, GuardedStack.size_eq, hbefore, hvalues]
  | got fs f s v hop htop hslot hlt hcell hvalues =>
    rcases hop with hop | hop <;> simp [heightAfter, hop, GuardedStack.size_eq, hvalues]
  | setLocal fs f s vs v hop htop hslot hlt hbefore hcell hvalues =>
    simp [heightAfter, hop, GuardedStack.size_eq, hbefore, hvalues]
  | called header args locals hop hindex hheader hslots hargs hvalues =>
    simp [heightAfter, hop, calleeSlots_eq hindex hheader hslots, GuardedStack.size_eq, hvalues]
  | ended f hop hframes hvalues => simp [heightAfter, hop, GuardedStack.size_eq, hvalues]
  | returned f vs result hop hframes hbefore hdepth hvalues =>
    simp [heightAfter, hop, top?_of_append hframes, hvalues, hdepth]
  | left f hop hframes hdepth hvalues =>
    simp [heightAfter, hop, top?_of_append hframes, hvalues, hdepth]

/-- A conditional jump that completes leaves the values as they were. -/
theorem Completed.values_of_branch (h : Completed i m m') {condition : Condition}
    (hop : i.opcode = .branch condition) : m'.stack.toList = m.stack.toList := by
  cases h with
  | branched _ _ _ _ hvalues => exact hvalues
  | still hop' | jumped hop' | pushed _ hop' | popped _ hop' | unary _ _ _ hop'
  | binary _ _ _ _ hop' | got _ _ _ _ hop' | setLocal _ _ _ _ _ hop' | called _ _ _ hop'
  | ended _ hop' | returned _ _ _ hop' | left _ hop' => simp [hop, Opcode.isHeader] at hop'

/-- A step of a verified program fails for want of values exactly when there are fewer than it
needs, and no other failure of a step is fatal. -/
theorem step_underflow_iff {p : Program} (hp : p.verify = .ok ()) (hm : Safe p m)
    (hrunning : m.isRunning = true) {d : Placed} (hdecode : p.decodeAt m.ip = .ok d) :
    ((∃ m', step m = .error (.failure (.run (.stackUnderflow d.opcode.mnemonic d.offset))) m') ↔
        m.stack.size < need d.toInstruction m) ∧
      ∀ e m', step m = .error (.failure e) m' →
        (e.isFatal = true ↔ e = .run (.stackUnderflow d.opcode.mnemonic d.offset)) := by
  have hoffset : d.offset = m.ip := by
    rcases Program.decodeAt_eq_ok hdecode with ⟨_, _, _, _, hoffset, _⟩
    exact hoffset
  rcases advance_effect hp hm hrunning with ⟨d', hdecode', heffect⟩
  rw [hdecode] at hdecode'
  cases hdecode'
  rcases heffect with ⟨hstep, hcompleted⟩ | ⟨e, hstep, _, hfailed⟩
  · have hle : need d.toInstruction m ≤ m.stack.size := hcompleted.need_le
    rw [hstep]
    refine ⟨⟨?_, ?_⟩, ?_⟩
    · rintro ⟨_, hfail⟩
      cases hfail
    · intro hlt
      omega
    · intro e m' hfail
      cases hfail
  · have hsplit : (e = .run (.stackUnderflow d.opcode.mnemonic d.offset) ∧
        m.stack.size < need d.toInstruction m) ∨
        (e.isFatal = false ∧ need d.toInstruction m ≤ m.stack.size) := by
      rw [hoffset]
      exact hfailed.need_iff
    rw [hstep]
    rcases hsplit with ⟨rfl, hlt⟩ | ⟨hfatal, hle⟩
    · refine ⟨⟨fun _ => hlt, fun _ => ⟨_, rfl⟩⟩, ?_⟩
      intro e m' hfail
      cases hfail
      exact ⟨fun _ => rfl, fun _ => rfl⟩
    · refine ⟨⟨?_, ?_⟩, ?_⟩
      · rintro ⟨_, hfail⟩
        cases hfail
        cases hfatal
      · intro hlt
        omega
      · intro e' m' hfail
        cases hfail
        constructor
        · intro htrue
          rw [hfatal] at htrue
          cases htrue
        · rintro rfl
          cases hfatal

end Accounting

end Machine

end StackMachine
