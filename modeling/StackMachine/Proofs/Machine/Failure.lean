import StackMachine.Proofs.Machine.Effect

/-!
# What a failed instruction leaves behind

A machine may be run on after an instruction has failed, so what the instruction had done up
to then stays visible.  It is little: the instruction pointer has moved on, at most one value
is gone, and the frames are those of before, unless a return has found fewer values than its
caller had.  Such a return has already ended the call, but it does not go back to the caller.

Main definitions:

- `FallsShort`, when a return has too few values for its caller;
- `Error.isUnplaced`, the errors that name no instruction.

Main results:

- Theorems `Failed.values`, `Failed.keeps_frames`, `Failed.drops_frame`, `Failed.offset?_eq`: what
  a failed instruction does, and where its error is.
- Theorem `failed_step`: what the next instruction leaves if it fails, after any runs.
-/

namespace StackMachine

/-- Whether an error comes from the console or the picture and names no instruction. -/
def Error.isUnplaced : Error → Bool
  | .host (.invalidInput _) | .host .endOfInput | .host (.invalidBitmap _) | .host (.io _) => true
  | _ => false

/-- An error of a verified program that is none of the running program comes from the console
or the picture. -/
theorem Error.isUnplaced_of_arisesIn {op : Opcode} {cause : HostError}
    (he : (Error.host cause).arisesIn op = true) : (Error.host cause).isUnplaced = true := by
  cases cause with
  | invalidInput _ | endOfInput | invalidBitmap _ | io _ => rfl
  | badSignature _ _ | notText _ | invalidSetting _ _ _ => cases he

namespace Machine

/-- Whether a return has fewer values than its caller had below the arguments.  A return with
a result takes the result off first. -/
def FallsShort (op : Opcode) (m : Machine) : Prop :=
  ∃ f, m.frames.top? = some f ∧
    (op = .ret ∧ 0 < m.stack.size ∧ m.stack.size - 1 < f.callerDepth ∨
      op = .leave ∧ m.stack.size < f.callerDepth)

section Failed

variable {i : Instruction} {m m' : Machine} {e : Error}

/-- A failed instruction has taken the top value, or none. -/
theorem Failed.values (h : Failed i m e m') :
    m'.stack.toList = m.stack.toList ∨ ∃ v, m.stack.toList = m'.stack.toList ++ [v] := by
  cases h with
  | noFrame _ _ _ h | noValue _ _ _ h | fewArguments _ _ _ _ _ _ _ _ _ h | noResult _ _ _ _ h
  | noSlot _ _ _ _ _ _ h | noCell _ _ _ _ _ _ _ _ _ _ h | noStoredValue _ _ _ _ _ _ _ _ _ h
  | badAddress _ _ _ h | refused _ _ _ h => exact .inl h.values
  | shortLeave _ _ _ hvalues _ _ => exact .inl hvalues
  | noSecondValue v _ hbefore _ hvalues _ => exact .inr ⟨v, by rw [hbefore, hvalues]; rfl⟩
  | shortReturn _ v _ _ hvalues _ _ | noStoringCell _ _ _ _ v _ _ _ _ hvalues _ _ _
  | badStoreAddress _ v _ hvalues _ _ | unprinted _ v _ hvalues _ _ => exact .inr ⟨v, hvalues⟩

/-- A return that finds no result does not fall short: it fails before that. -/
theorem not_fallsShort_of_nil (hempty : m.stack.toList = []) : ¬ FallsShort .ret m := by
  rintro ⟨f, _, ⟨_, hpos, _⟩ | ⟨hleave, _⟩⟩
  · simp [GuardedStack.size_eq, hempty] at hpos
  · cases hleave

/-- A failed instruction keeps the frames, unless it is a return that falls short. -/
theorem Failed.keeps_frames (h : Failed i m e m') (hlong : ¬ FallsShort i.opcode m) :
    m'.frames.toList = m.frames.toList := by
  cases h with
  | noFrame _ _ _ h | noValue _ _ _ h | fewArguments _ _ _ _ _ _ _ _ _ h | noResult _ _ _ _ h
  | noSlot _ _ _ _ _ _ h | noCell _ _ _ _ _ _ _ _ _ _ h | noStoredValue _ _ _ _ _ _ _ _ _ h
  | badAddress _ _ _ h | refused _ _ _ h => exact h.frames
  | noSecondValue _ _ _ _ _ hframes | noStoringCell _ _ _ _ _ _ _ _ _ _ _ _ hframes
  | badStoreAddress _ _ _ _ _ hframes | unprinted _ _ _ _ _ hframes => exact hframes
  | shortReturn f v hop hframes hvalues hdepth _ =>
    refine absurd ⟨f, top?_of_append hframes, .inl ⟨hop, ?_⟩⟩ hlong
    rw [GuardedStack.size_eq, hvalues, List.length_append, List.length_singleton]
    exact ⟨Nat.succ_pos _, hdepth⟩
  | shortLeave f hop hframes _ hdepth _ =>
    refine absurd ⟨f, top?_of_append hframes, .inr ⟨hop, ?_⟩⟩ hlong
    rwa [GuardedStack.size_eq]

/-- A failed return that falls short has ended its call, and has taken its result. -/
theorem Failed.drops_frame (h : Failed i m e m') (hshort : FallsShort i.opcode m) :
    (∃ f, m.frames.toList = m'.frames.toList ++ [f]) ∧
      (i.opcode = .ret → ∃ result, m.stack.toList = m'.stack.toList ++ [result]) := by
  have hop : i.opcode = .ret ∨ i.opcode = .leave := by
    obtain ⟨_, _, hreturn⟩ := hshort
    exact hreturn.imp And.left And.left
  cases h with
  | noFrame _ hnil _ _ =>
    obtain ⟨f, htop, _⟩ := hshort
    simp [GuardedStack.top?_eq, hnil] at htop
  | noResult hret _ hempty _ _ =>
    rw [hret] at hshort
    exact absurd hshort (not_fallsShort_of_nil hempty)
  | shortReturn g v _ hframes' hvalues _ _ => exact ⟨⟨g, hframes'⟩, fun _ => ⟨v, hvalues⟩⟩
  | shortLeave g hleave hframes' _ _ _ =>
    refine ⟨⟨g, hframes'⟩, fun hret => ?_⟩
    rw [hleave] at hret
    cases hret
  | noValue hop' _ _ _ => rcases hop with hop | hop <;> simp [hop, Opcode.popsFirst] at hop'
  | noSecondValue _ hop' | fewArguments _ _ _ hop' | noSlot _ _ hop' | noCell _ _ _ _ hop'
  | noStoredValue _ _ _ hop' | noStoringCell _ _ _ _ _ hop' | badAddress _ hop'
  | badStoreAddress _ _ hop' | unprinted _ _ hop' | refused _ hop' =>
    rcases hop with hop | hop <;> simp [hop] at hop'

/-- The error of a failed instruction is at the instruction, or comes from the surroundings. -/
theorem Failed.offset?_eq (h : Failed i m e m') :
    e.offset? = some m.current ∨ ∃ cause, e = .host cause := by
  cases h with
  | unprinted cause _ _ _ he _ | refused cause _ he _ => exact .inr ⟨cause, he⟩
  | noFrame _ _ he _ | noValue _ _ he _ | noSecondValue _ _ _ he _ _
  | fewArguments _ _ _ _ _ _ _ _ he _ | noResult _ _ _ he _ | shortReturn _ _ _ _ _ _ he
  | shortLeave _ _ _ _ _ he | noSlot _ _ _ _ _ he _ | noCell _ _ _ _ _ _ _ _ _ he _
  | noStoredValue _ _ _ _ _ _ _ _ he _ | noStoringCell _ _ _ _ _ _ _ _ _ _ _ he _
  | badAddress _ _ he _ | badStoreAddress _ _ _ _ he _ => exact .inl (by rw [he]; rfl)

end Failed

/-- After any runs of a verified program, take an instruction that fails.  Registers, memory
and the halted flag stay, and the next instruction is the one that follows.  At most the top
value is gone.  The frames stay, but a return that falls short has dropped the topmost one.
The error names the instruction, or comes from the console or the picture. -/
theorem failed_step {p : Program} (hp : p.verify = .ok ()) (capacity : Nat) (console : Console)
    (canvas : Canvas) (budgets : List Nat) {m m' : Machine} {r : Interrupt}
    (hm : afterRuns budgets (start p capacity console canvas) = m) (hrunning : m.isRunning = true)
    (hstep : step m = .error r m') :
    ∃ d e, p.decodeAt m.ip = .ok d ∧ r = .failure e ∧
      m'.registers = m.registers ∧ m'.ram = m.ram ∧ m'.halted = m.halted ∧ m'.ip = d.next ∧
      (m'.stack.toList = m.stack.toList ∨ ∃ v, m.stack.toList = m'.stack.toList ++ [v]) ∧
      (¬ FallsShort d.opcode m → m'.frames.toList = m.frames.toList) ∧
      (FallsShort d.opcode m → (∃ f, m.frames.toList = m'.frames.toList ++ [f]) ∧
        (d.opcode = .ret → ∃ result, m.stack.toList = m'.stack.toList ++ [result])) ∧
      (d.opcode = .ret → m.stack.toList = [] → m'.frames.toList = m.frames.toList) ∧
      (∀ offset, e.offset? = some offset → offset = m.ip) ∧
      (e.offset? = none → e.isUnplaced = true) := by
  have hsafe : Safe p m := hm ▸ safe_afterRuns hp (safe_start hp capacity console canvas) budgets
  obtain ⟨d, hdecode, ⟨hok, _⟩ | ⟨e, herror, hrest, hfailed⟩⟩ := advance_effect hp hsafe hrunning
  · rw [hstep] at hok
    cases hok
  rw [hstep] at herror
  obtain ⟨rfl, hm'⟩ : r = .failure e ∧ m' = advance m := by simpa using herror
  rw [← hm'] at hrest hfailed
  have hoffset := hfailed.offset?_eq
  refine ⟨d, e, hdecode, rfl, hrest.registers, hrest.ram, hrest.halted, hrest.ip, hfailed.values,
    hfailed.keeps_frames, hfailed.drops_frame, fun hret hempty => hfailed.keeps_frames ?_,
    fun offset he => ?_, fun he => ?_⟩
  · rw [hret]
    exact not_fallsShort_of_nil hempty
  · rcases hoffset with hoffset | ⟨cause, rfl⟩
    · rw [hoffset] at he
      exact (Option.some.inj he).symm
    · cases he
  · rcases hoffset with hoffset | ⟨cause, rfl⟩
    · rw [hoffset] at he
      cases he
    · obtain ⟨d', hdecode', hsafeStep⟩ := step_safe hp hsafe hrunning
      rw [Leads, hstep] at hsafeStep
      obtain ⟨⟨_, heq, harises⟩, _⟩ := hsafeStep
      cases heq
      exact Error.isUnplaced_of_arisesIn harises

/-- A call of a function that takes a value of its caller and then leaves. -/
def shortExample : Program :=
  .ofCode (List.flatMap Instruction.encode
    [⟨.push, [.ofNat 0, .ofNat 1]⟩, ⟨.call, [.ofNat 32]⟩, ⟨.func, [.ofNat 60]⟩,
     ⟨.pop, [.ofNat 0, .ofNat 0]⟩, ⟨.leave, []⟩, ⟨.endFunc, []⟩])

/-- The function has taken the value that its caller keeps, so that its return falls short and pops
the frame. -/
theorem failed_step_shortExample :
    let m := afterRuns [3] (start shortExample 8 (.ofInput []) (.blank "" none))
    shortExample.verify = .ok () ∧ m.isRunning = true ∧ FallsShort .leave m ∧
      ∃ e m', step m = .error (.failure e) m' ∧ m'.ip = 59 ∧ m'.registers = m.registers ∧
        (∃ f, m.frames.toList = m'.frames.toList ++ [f]) ∧
        (e.offset? = none → e.isUnplaced = true) := by
  intro m
  have hp : shortExample.verify = .ok () := by decide +kernel
  have hrunning : m.isRunning = true := by decide +kernel
  have hdecode : shortExample.decodeAt m.ip = .ok ⟨⟨.leave, []⟩, 58⟩ := by decide +kernel
  have hshort : FallsShort .leave m := by
    refine ⟨⟨32, 1, 0, 0⟩, ?_, .inr ⟨rfl, ?_⟩⟩ <;> decide +kernel
  obtain ⟨r, m', hstep⟩ : ∃ r m', step m = .error r m' := exists_error_of_leads (by decide +kernel)
  obtain ⟨d, e, hd, rfl, hregisters, _, _, hip, _, _, hdrops, _, _, hnone⟩ :=
    failed_step hp 8 (.ofInput []) (.blank "" none) [3] rfl hrunning hstep
  rw [hdecode] at hd
  cases hd
  exact ⟨hp, hrunning, hshort, e, m', hstep, hip, hregisters, (hdrops hshort).1, hnone⟩

end Machine

end StackMachine
