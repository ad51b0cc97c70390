import StackMachine.Proofs.Machine.Effect

/-!
# Calls and returns

A call that succeeds puts its frame on top of the frames there are.  Until the frames are as
many as before the call, its frame and those below it stay; the instruction that makes them
as many is a return, and execution goes on after the call.  The values that the caller had
below the arguments stay as well, as long as no instruction takes the stack below them:
locals are written above the base of their frame, and every frame on top of the caller's has
its base above these values.

Main definitions:

- `lowest` and `lowWater`, how far down an instruction takes the value stack;
- `Within`, a machine inside of a call;
- `Sheltered`, a machine that still has the lowest values of another time.

Main results:

- Theorems `Completed.keeps`, `Failed.keeps`: an instruction leaves the values below its
  lowest height alone.
- Theorems `Within.advance`, `Sheltered.advance`: what one instruction inside of a call
  preserves.
- Theorem `returns_of_frames`: what a return does.
- Theorem `call_discipline`: what holds from a call to its return.
-/

namespace StackMachine

/-- Whether an instruction ends a call. -/
def Opcode.isReturn : Opcode → Bool
  | endFunc | ret | leave => true
  | _ => false

namespace Machine

/-! ## How far down an instruction takes the value stack -/

/-- The least height of the value stack while an instruction is carried out, and after it.
The two values that a conditional jump takes it puts back at once, so they do not count;
but if there is only one value, it takes that and fails. -/
def lowest (i : Instruction) (m : Machine) : Nat :=
  let height := m.stack.size
  match i.opcode, m.frames.top? with
  | .pop, _ | .output, _ | .unary _, _ => height - 1
  | .binary _, _ => height - 2
  | .branch _, _ => if height = 1 then 0 else height
  | .setLocal, some f =>
    match (i.operand 0).index? with
    | some s => if s < f.localCount then height - 1 else height
    | none => height
  | .ret, some f => min (height - 1) f.callerDepth
  | .leave, some f => min height f.callerDepth
  | _, _ => height

/-- The least height of the value stack during the next instruction, if there is one. -/
def lowWater (m : Machine) : Nat :=
  match m.isRunning, m.program.decodeAt m.ip with
  | true, .ok d => lowest d.toInstruction m
  | _, _ => m.stack.size

section Lowest

variable {m m' : Machine} {i : Instruction} {k : Nat}

/-- An instruction takes the stack down from its height, not up. -/
theorem lowest_le (i : Instruction) (m : Machine) : lowest i m ≤ m.stack.toList.length := by
  rw [← GuardedStack.size_eq]
  unfold lowest
  dsimp only
  split <;> try split
  all_goals try split
  all_goals omega

/-- The lowest values of one machine are those of another. -/
structure Keeps (k : Nat) (m m' : Machine) : Prop where
  le : k ≤ m'.stack.toList.length
  take_eq : m'.stack.toList.take k = m.stack.toList.take k

/-- Values that two stacks have in common at the bottom are kept. -/
theorem keeps_of_common {us vs ws : List Double} (hk : k ≤ us.length)
    (hbefore : m.stack.toList = us ++ vs) (hafter : m'.stack.toList = us ++ ws) : Keeps k m m' := by
  refine ⟨?_, ?_⟩
  · rw [hafter, List.length_append]
    omega
  · rw [hafter, hbefore, List.take_append_of_le_length hk, List.take_append_of_le_length hk]

theorem keeps_of_eq (hk : k ≤ m.stack.toList.length) (hvalues : m'.stack.toList = m.stack.toList) :
    Keeps k m m' :=
  keeps_of_common hk (List.append_nil _).symm (hvalues.trans (List.append_nil _).symm)

theorem keeps_of_pushed {ws : List Double} (hk : k ≤ m.stack.toList.length)
    (hvalues : m'.stack.toList = m.stack.toList ++ ws) : Keeps k m m' :=
  keeps_of_common hk (List.append_nil _).symm hvalues

/-- An instruction that completes leaves the values below its lowest height alone, if it
stores nothing in a local among them. -/
theorem Completed.keeps (h : Completed i m m') (hk : k ≤ lowest i m)
    (hbase : i.opcode = .setLocal → ∀ fs f, m.frames.toList = fs ++ [f] → k ≤ f.base) :
    Keeps k m m' := by
  have hheight : k ≤ m.stack.toList.length := hk.trans (lowest_le i m)
  cases h with
  | still _ hvalues _ | jumped _ _ hvalues _ | branched _ _ _ _ hvalues _
  | ended _ _ _ hvalues _ => exact keeps_of_eq hheight hvalues
  | pushed _ _ hvalues _ | got _ _ _ _ _ _ _ _ _ hvalues _
  | called _ _ _ _ _ _ _ _ hvalues _ _ =>
    exact keeps_of_pushed hheight hvalues
  | popped v hop hvalues _ =>
    have hlow : k ≤ m'.stack.toList.length := by
      rcases hop with hop | hop <;>
        simpa [lowest, hop, GuardedStack.size_eq, hvalues] using hk
    exact keeps_of_common hlow hvalues (List.append_nil _).symm
  | unary op vs v hop hbefore hvalues _ =>
    have hlow : k ≤ vs.length := by simpa [lowest, hop, GuardedStack.size_eq, hbefore] using hk
    exact keeps_of_common hlow hbefore hvalues
  | binary op vs v w hop hbefore hvalues _ =>
    have hlow : k ≤ vs.length := by simpa [lowest, hop, GuardedStack.size_eq, hbefore] using hk
    exact keeps_of_common hlow hbefore hvalues
  | setLocal fs f s vs v hop htop hslot hlt hbefore hcell hvalues _ =>
    have hlow : k ≤ vs.length := by
      simpa [lowest, hop, top?_of_append htop, hslot, hlt, GuardedStack.size_eq, hbefore] using hk
    -- The local is above the base of its frame.
    have hle : k ≤ f.base + s := (hbase hop fs f htop).trans (Nat.le_add_right _ _)
    refine ⟨?_, ?_⟩
    · rwa [hvalues, List.length_set]
    · rw [hvalues, List.take_set_of_le hle, hbefore, List.take_append_of_le_length hlow]
  | returned f vs result hop hframes hbefore hdepth hvalues _ =>
    have hlow : k ≤ f.callerDepth := by
      have hmin : k ≤ vs.length ∧ k ≤ f.callerDepth := by
        simpa [lowest, hop, top?_of_append hframes, GuardedStack.size_eq, hbefore] using hk
      exact hmin.2
    have hsplit : m.stack.toList =
        vs.take f.callerDepth ++ (vs.drop f.callerDepth ++ [result]) := by
      rw [← List.append_assoc, List.take_append_drop, hbefore]
    exact keeps_of_common (by rwa [List.length_take_of_le hdepth]) hsplit hvalues
  | left f hop hframes hdepth hvalues _ =>
    have hlow : k ≤ f.callerDepth := by
      have hmin : k ≤ m.stack.toList.length ∧ k ≤ f.callerDepth := by
        simpa [lowest, hop, top?_of_append hframes, GuardedStack.size_eq] using hk
      exact hmin.2
    exact keeps_of_common (by rwa [List.length_take_of_le hdepth]) (List.take_append_drop _ _).symm
      (hvalues.trans (List.append_nil _).symm)

/-- An instruction that fails leaves the values below its lowest height alone. -/
theorem Failed.keeps {e : Error} (h : Failed i m e m') (hk : k ≤ lowest i m) : Keeps k m m' := by
  have hheight : k ≤ m.stack.toList.length := hk.trans (lowest_le i m)
  -- Where the top value is gone, the lowest height is that of what is left.
  have hlost {v : Double} (hvalues : m.stack.toList = m'.stack.toList ++ [v])
      (hlow : k ≤ m'.stack.toList.length) : Keeps k m m' :=
    keeps_of_common hlow hvalues (List.append_nil _).symm
  cases h with
  | noFrame _ _ _ h | noValue _ _ _ h | fewArguments _ _ _ _ _ _ _ _ _ h | noResult _ _ _ _ h
  | noSlot _ _ _ _ _ _ h | noCell _ _ _ _ _ _ _ _ _ _ h | noStoredValue _ _ _ _ _ _ _ _ _ h
  | badAddress _ _ _ h | refused _ _ _ h => exact keeps_of_eq hheight h.values
  | noSecondValue v hop hbefore _ hvalues _ =>
    refine hlost (v := v) (by rw [hbefore, hvalues]; rfl) ?_
    rcases hop with ⟨_, hop⟩ | ⟨_, hop⟩ <;>
      simpa [lowest, hop, GuardedStack.size_eq, hbefore, hvalues] using hk
  | shortReturn f result hop hframes hvalues _ _ =>
    refine hlost hvalues ?_
    have hmin : k ≤ m'.stack.toList.length ∧ k ≤ f.callerDepth := by
      simpa [lowest, hop, top?_of_append hframes, GuardedStack.size_eq, hvalues] using hk
    exact hmin.1
  | shortLeave _ _ _ hvalues _ _ => exact keeps_of_eq hheight hvalues
  | noStoringCell fs f s _ v hop htop hslot hlt hvalues _ _ _ =>
    refine hlost hvalues ?_
    simpa [lowest, hop, top?_of_append htop, hslot, hlt, GuardedStack.size_eq, hvalues] using hk
  | badStoreAddress _ v hop hvalues _ _ | unprinted _ v hop hvalues _ _ =>
    refine hlost hvalues ?_
    simpa [lowest, hop, GuardedStack.size_eq, hvalues] using hk

end Lowest

/-! ## Frames -/

/-- What an instruction does to the frames. -/
inductive Reframed (op : Opcode) (m m' : Machine) : Prop where
  | same (hframes : m'.frames.toList = m.frames.toList)
  | pushed (f : Frame) (hframes : m'.frames.toList = m.frames.toList ++ [f])
      (hbase : f.base = m.stack.toList.length)
  | popped (f : Frame) (hframes : m.frames.toList = m'.frames.toList ++ [f])
      (hop : op.isReturn = true)

section Frames

variable {m m' : Machine} {i : Instruction}

/-- An instruction that completes leaves the frames as they are, pushes one, or is a return and pops
one. -/
theorem Completed.reframed (h : Completed i m m') : Reframed i.opcode m m' := by
  cases h with
  | still _ _ hline | pushed _ _ _ hline | popped _ _ _ hline | unary _ _ _ _ _ _ hline
  | binary _ _ _ _ _ _ _ hline | got _ _ _ _ _ _ _ _ _ _ hline
  | setLocal _ _ _ _ _ _ _ _ _ _ _ _ hline =>
    exact .same hline.frames
  | jumped _ _ _ hframes | branched _ _ _ _ _ hframes => exact .same hframes
  | called _ _ _ _ _ _ _ _ _ hframes _ => exact .pushed _ hframes rfl
  | ended f hop hframes _ _ | returned f _ _ hop hframes _ _ _ _ | left f hop hframes _ _ _ =>
    exact .popped f hframes (by rw [hop]; rfl)

/-- An instruction that fails leaves the frames as they are, unless it is a return that pops one. -/
theorem Failed.reframed {e : Error} (h : Failed i m e m') : Reframed i.opcode m m' := by
  cases h with
  | noFrame _ _ _ h | noValue _ _ _ h | fewArguments _ _ _ _ _ _ _ _ _ h | noResult _ _ _ _ h
  | noSlot _ _ _ _ _ _ h | noCell _ _ _ _ _ _ _ _ _ _ h | noStoredValue _ _ _ _ _ _ _ _ _ h
  | badAddress _ _ _ h | refused _ _ _ h => exact .same h.frames
  | noSecondValue _ _ _ _ _ hframes | noStoringCell _ _ _ _ _ _ _ _ _ _ _ _ hframes
  | badStoreAddress _ _ _ _ _ hframes | unprinted _ _ _ _ _ hframes => exact .same hframes
  | shortReturn f _ hop hframes _ _ _ | shortLeave f hop hframes _ _ _ =>
    exact .popped f hframes (by rw [hop]; rfl)

/-- The values that a return leaves, when the caller is to have the kept ones back: the
result after them, nothing after them, or what the function has left. -/
def Leaves (op : Opcode) (kept before after : List Double) : Prop :=
  match op with
  | .ret => ∃ result, before.getLast? = some result ∧ after = kept ++ [result]
  | .leave => after = kept
  | _ => after = kept ++ before.drop kept.length

/-- An instruction that completes and ends a call continues after the call. -/
theorem Completed.returns (h : Completed i m m') {f : Frame}
    (hframes : m.frames.toList = m'.frames.toList ++ [f]) :
    m'.ip = f.returnAddress ∧
      Leaves i.opcode (m.stack.toList.take f.callerDepth) m.stack.toList m'.stack.toList := by
  have hnot (hframes' : m'.frames.toList = m.frames.toList) : False := by
    rw [hframes'] at hframes
    simp at hframes
  have hsame {g : Frame} (hframes' : m.frames.toList = m'.frames.toList ++ [g]) : g = f := by
    simpa using hframes'.symm.trans hframes
  cases h with
  | still _ _ hline | pushed _ _ _ hline | popped _ _ _ hline | unary _ _ _ _ _ _ hline
  | binary _ _ _ _ _ _ _ hline | got _ _ _ _ _ _ _ _ _ _ hline
  | setLocal _ _ _ _ _ _ _ _ _ _ _ _ hline =>
    exact (hnot hline.frames).elim
  | jumped _ _ _ hframes' | branched _ _ _ _ _ hframes' => exact (hnot hframes').elim
  | called _ _ _ _ _ _ _ _ _ hframes' _ =>
    rw [hframes'] at hframes
    simp at hframes
  | ended g hop hframes' hvalues hip =>
    rw [← hsame hframes', hop]
    exact ⟨hip, hvalues.trans (List.prefix_iff_eq_append.mp (List.take_prefix _ _)).symm⟩
  | returned g vs result hop hframes' hbefore hdepth hvalues hip =>
    rw [← hsame hframes', hop]
    refine ⟨hip, result, ?_, ?_⟩
    · rw [hbefore, List.getLast?_concat]
    · rw [hvalues, hbefore, List.take_append_of_le_length hdepth]
  | left g hop hframes' hdepth hvalues hip =>
    rw [← hsame hframes', hop]
    exact ⟨hip, hvalues⟩

end Frames

/-! ## Inside of a call -/

/-- A machine inside of a call: the frame of the call is there, on top of those of the
caller. -/
structure Within (p : Program) (caller : List Frame) (f : Frame) (m : Machine) : Prop where
  safe : Safe p m
  frames : ∃ deeper, m.frames.toList = caller ++ f :: deeper

/-- A machine that has the given lowest values, and locals only above them. -/
structure Sheltered (kept : List Double) (depth : Nat) (m : Machine) : Prop where
  values : kept <+: m.stack.toList
  bases : ∀ f ∈ m.frames.toList.drop depth, kept.length ≤ f.base

section Calls

variable {p : Program} {m : Machine} {caller : List Frame} {f : Frame} {kept : List Double}

/-- An instruction of a verified program leaves the frames as they are, pushes one, or is a return
and pops one. -/
theorem advance_reframed (hp : p.verify = .ok ()) (hm : Safe p m) (hrunning : m.isRunning = true) :
    ∃ d, p.decodeAt m.ip = .ok d ∧ Reframed d.opcode m m.advance := by
  obtain ⟨d, hdecode, heffect⟩ := advance_effect hp hm hrunning
  have hreframed : Reframed d.opcode (m.pastReading d) m.advance := by
    rcases heffect with ⟨_, hcompleted⟩ | ⟨_, _, _, hfailed⟩
    · exact hcompleted.reframed
    · exact hfailed.reframed
  -- Reading an instruction changes neither stack.
  refine ⟨d, hdecode, ?_⟩
  cases hreframed with
  | same hframes => exact .same hframes
  | pushed f hframes hbase => exact .pushed f hframes hbase
  | popped f hframes hop => exact .popped f hframes hop

/-- An instruction inside of a call stays inside, or ends the call. -/
theorem Within.advance (hp : p.verify = .ok ()) (h : Within p caller f m) :
    Within p caller f m.advance ∨
      m.isRunning = true ∧ m.frames.toList = caller ++ [f] ∧ m.advance.frames.toList = caller := by
  have hsafe := safe_advance hp h.safe
  obtain ⟨deeper, hframes⟩ := h.frames
  cases hrunning : m.isRunning with
  | false =>
    rw [advance_of_not_running hrunning]
    exact .inl h
  | true =>
    obtain ⟨d, _, hreframed⟩ := advance_reframed hp h.safe hrunning
    cases hreframed with
    | same hframes' => exact .inl ⟨hsafe, deeper, hframes'.trans hframes⟩
    | pushed g hframes' _ =>
      exact .inl ⟨hsafe, deeper ++ [g], by simp [hframes', hframes]⟩
    | popped g hframes' _ =>
      rw [hframes] at hframes'
      rcases List.eq_nil_or_concat deeper with rfl | ⟨deeper', g', rfl⟩
      · have hcaller : caller = m.advance.frames.toList := (List.append_inj' hframes' rfl).1
        exact .inr ⟨rfl, hframes, hcaller.symm⟩
      · have hinner : caller ++ f :: deeper' = m.advance.frames.toList := by
          have hsplit : caller ++ f :: deeper' ++ [g'] = m.advance.frames.toList ++ [g] := by
            simpa using hframes'
          exact (List.append_inj' hsplit rfl).1
        exact .inl ⟨hsafe, deeper', hinner.symm⟩

/-- The frame of the current call is the one of the call in question or a deeper one, so its
locals are above the values that are kept. -/
theorem Sheltered.le_base (h : Sheltered kept caller.length m) (hw : Within p caller f m)
    {fs : List Frame} {g : Frame} (htop : m.frames.toList = fs ++ [g]) : kept.length ≤ g.base := by
  obtain ⟨deeper, hframes⟩ := hw.frames
  have hlast : (f :: deeper).getLast? = some g := by
    have hlast' := congrArg List.getLast? (hframes.symm.trans htop)
    rwa [List.getLast?_append_of_ne_nil _ (List.cons_ne_nil f deeper),
      List.getLast?_concat] at hlast'
  refine h.bases g ?_
  rw [hframes, List.drop_left]
  exact List.mem_of_getLast? hlast

/-- A frame that is pushed has its base at the height of the stack, and is the only new one. -/
theorem Reframed.le_base {op : Opcode} {m' : Machine} {k depth : Nat} (h : Reframed op m m')
    (hdepth : depth ≤ m.frames.toList.length) (hk : k ≤ m.stack.toList.length)
    (hbases : ∀ g ∈ m.frames.toList.drop depth, k ≤ g.base) :
    ∀ g ∈ m'.frames.toList.drop depth, k ≤ g.base := by
  intro g hg
  cases h with
  | same hframes =>
    rw [hframes] at hg
    exact hbases g hg
  | pushed new hframes hbase =>
    rw [hframes, List.drop_append_of_le_length hdepth, List.mem_append, List.mem_singleton] at hg
    rcases hg with hg | rfl
    · exact hbases g hg
    · rwa [hbase]
  | popped old hframes _ =>
    refine hbases g ?_
    rw [hframes, List.drop_append]
    exact List.mem_append_left _ hg

/-- An instruction keeps the lowest values, unless it takes the stack below them or stores a
value in a local among them. -/
theorem Sheltered.advance_of_base (hp : p.verify = .ok ()) (hm : Safe p m)
    (hrunning : m.isRunning = true) {depth : Nat} (h : Sheltered kept depth m)
    (hdepth : depth ≤ m.frames.toList.length) (hlow : kept.length ≤ m.lowWater)
    (hbase : ∀ d, p.decodeAt m.ip = .ok d → d.opcode = .setLocal → step m = .ok () m.advance →
      ∀ fs g, m.frames.toList = fs ++ [g] → kept.length ≤ g.base) :
    Sheltered kept depth m.advance := by
  obtain ⟨d, hdecode, heffect⟩ := advance_effect hp hm hrunning
  have hlow' : kept.length ≤ lowest d.toInstruction (m.pastReading d) := by
    rw [lowWater, hrunning, hm.program, hdecode] at hlow
    exact hlow
  have hkeeps : Keeps kept.length (m.pastReading d) m.advance := by
    rcases heffect with ⟨hstep, hcompleted⟩ | ⟨_, _, _, hfailed⟩
    · exact hcompleted.keeps hlow' fun hop => hbase d hdecode hop hstep
    · exact hfailed.keeps hlow'
  refine ⟨?_, ?_⟩
  · have htake : m.advance.stack.toList.take kept.length = m.stack.toList.take kept.length :=
      hkeeps.take_eq
    rw [List.prefix_iff_eq_take, htake]
    exact List.prefix_iff_eq_take.mp h.values
  · obtain ⟨_, _, hreframed⟩ := advance_reframed hp hm hrunning
    exact hreframed.le_base hdepth h.values.length_le h.bases

/-- An instruction inside of a call keeps the lowest values, unless it takes the stack below
them. -/
theorem Sheltered.advance (hp : p.verify = .ok ()) (hw : Within p caller f m)
    (h : Sheltered kept caller.length m) (hlow : kept.length ≤ m.lowWater) :
    Sheltered kept caller.length m.advance := by
  cases hrunning : m.isRunning with
  | false =>
    rw [advance_of_not_running hrunning]
    exact h
  | true =>
    obtain ⟨deeper, hframes⟩ := hw.frames
    refine h.advance_of_base hp hw.safe hrunning (by simp [hframes]) hlow ?_
    intro _ _ _ _ fs g htop
    exact h.le_base hw htop

/-- What ends a call, and what it leaves if it succeeds. -/
theorem returns_of_frames (hp : p.verify = .ok ()) (hm : Safe p m) (hrunning : m.isRunning = true)
    (hbefore : m.frames.toList = caller ++ [f]) (hafter : m.advance.frames.toList = caller) :
    ∃ d, p.decodeAt m.ip = .ok d ∧ d.opcode.isReturn = true ∧
      ∀ m', step m = .ok () m' → m'.ip = f.returnAddress ∧
        Leaves d.opcode (m.stack.toList.take f.callerDepth) m.stack.toList m'.stack.toList := by
  have hframes : m.frames.toList = m.advance.frames.toList ++ [f] := by rw [hbefore, hafter]
  obtain ⟨d, hdecode, hreframed⟩ := advance_reframed hp hm hrunning
  have hop : d.opcode.isReturn = true := by
    cases hreframed with
    | same hframes' =>
      rw [hframes'] at hframes
      simp at hframes
    | pushed g hframes' _ =>
      rw [hframes'] at hframes
      simp at hframes
    | popped _ _ hop => exact hop
  refine ⟨d, hdecode, hop, fun m' hstep => ?_⟩
  rw [advance_of_ok hrunning hstep] at hframes
  exact (completed_of_ok hp hm hrunning hdecode hstep).returns hframes

/-- Inside of a call that has not ended. -/
theorem within_iterate (hp : p.verify = .ok ()) (h : Within p caller f m) {j : Nat}
    (hopen : ∀ i ≤ j, (advance^[i] m).frames.size ≠ caller.length) :
    Within p caller f (advance^[j] m) := by
  induction j with
  | zero => exact h
  | succ j ih =>
    have hnow := ih fun i hi => hopen i (Nat.le_succ_of_le hi)
    rw [Function.iterate_succ_apply']
    rcases hnow.advance hp with hstay | ⟨_, _, hended⟩
    · exact hstay
    · refine absurd ?_ (hopen (j + 1) (Nat.le_refl _))
      rw [Function.iterate_succ_apply', GuardedStack.size_eq, hended]

/-- The lowest values stay as long as no instruction takes the stack below them. -/
theorem sheltered_iterate (hp : p.verify = .ok ()) (hw : Within p caller f m)
    (h : Sheltered kept caller.length m) {j : Nat}
    (hopen : ∀ i ≤ j, (advance^[i] m).frames.size ≠ caller.length)
    (hlow : ∀ i < j, kept.length ≤ (advance^[i] m).lowWater) :
    Sheltered kept caller.length (advance^[j] m) := by
  induction j with
  | zero => exact h
  | succ j ih =>
    have hopen' : ∀ i ≤ j, (advance^[i] m).frames.size ≠ caller.length :=
      fun i hi => hopen i (Nat.le_succ_of_le hi)
    have hnow := ih hopen' fun i hi => hlow i (Nat.lt_succ_of_lt hi)
    rw [Function.iterate_succ_apply']
    exact hnow.advance hp (within_iterate hp hw hopen') (hlow j (Nat.lt_succ_self j))

/-- A call that completes enters the function its operand names, with a frame for what the
header of the function declares. -/
theorem Completed.enters {i : Instruction} {m' : Machine} (h : Completed i m m')
    (hcall : i.opcode = .call) :
    ∃ header args locals, (i.operand 0).index? = some header.offset ∧
      m.program.decodeAt header.offset = .ok header ∧
      header.declared? = some (args, locals) ∧ args ≤ maxFrameSlots ∧ locals ≤ maxFrameSlots ∧
      args ≤ m.stack.toList.length ∧
      m'.stack.toList = m.stack.toList ++ List.replicate locals Double.zero ∧
      m'.frames.toList = m.frames.toList ++ [⟨m.ip, m.stack.toList.length, args, locals⟩] := by
  cases h with
  | called header args locals _ hindex hheader hslots hargs hvalues hframes _ =>
    obtain ⟨hdeclared, hfew, hfew'⟩ := declaredSlots_eq_ok_iff.mp hslots
    exact ⟨header, args, locals, hindex, hheader, hdeclared, hfew, hfew', hargs, hvalues, hframes⟩
  | still hop | jumped hop | branched _ hop | pushed _ hop | popped _ hop | unary _ _ _ hop
  | binary _ _ _ _ hop | got _ _ _ _ hop | setLocal _ _ _ _ _ hop
  | ended _ hop | returned _ _ _ hop | left _ hop => simp [hcall, Opcode.isHeader] at hop

/-- A call that succeeds has found its arguments, and is inside of the function then. -/
theorem within_of_call (hp : p.verify = .ok ()) (hm : Safe p m) (hrunning : m.isRunning = true)
    {c : Placed} {m₁ : Machine} (hdecode : p.decodeAt m.ip = .ok c) (hcall : c.opcode = .call)
    (hstep : step m = .ok () m₁) :
    ∃ header args locals, (c.operand 0).index? = some header.offset ∧
      p.decodeAt header.offset = .ok header ∧
      header.declared? = some (args, locals) ∧ args ≤ maxFrameSlots ∧ locals ≤ maxFrameSlots ∧
      args ≤ m.stack.size ∧
      Within p m.frames.toList ⟨c.offset + 9, m.stack.size, args, locals⟩ m₁ ∧
      Sheltered (m.stack.toList.take (m.stack.size - args)) m.frames.toList.length m₁ := by
  have hnext : c.next = c.offset + 9 := by
    rw [Placed.next, hcall]
    rfl
  have hsafe : Safe p m₁ := advance_of_ok hrunning hstep ▸ safe_advance hp hm
  obtain ⟨header, args, locals, hindex, hheader, hdeclared, hfew, hfew', hargs, hvalues,
    hframes⟩ := (completed_of_ok hp hm hrunning hdecode hstep).enters hcall
  refine ⟨header, args, locals, hindex, hm.program ▸ hheader, hdeclared, hfew, hfew', ?_,
    ⟨hsafe, [], ?_⟩, ⟨?_, fun g hg => ?_⟩⟩
  · rw [GuardedStack.size_eq]
    exact hargs
  · rw [← hnext, GuardedStack.size_eq]
    exact hframes
  · rw [hvalues]
    exact (List.take_prefix _ _).trans (List.prefix_append _ _)
  · have hdrop : m₁.frames.toList.drop m.frames.toList.length =
        [⟨c.next, m.stack.toList.length, args, locals⟩] := by
      rw [hframes]
      exact List.drop_left
    rw [hdrop, List.mem_singleton] at hg
    rw [hg]
    exact List.length_take_le' _ _

end Calls

/-- After any runs of a verified program, take a call that succeeds, of a function whose header
declares its arguments.  As long as the frames are not as many as before the call, those of the
caller stay.  The instruction that makes them as many is a return, and if it succeeds execution
goes on after the call.  If no instruction in between takes the stack below the values under the
arguments, these values stay too, and the return leaves them under what it returns. -/
theorem call_discipline {p : Program} (hp : p.verify = .ok ()) (capacity : Nat)
    (console : Console) (canvas : Canvas) (budgets : List Nat) {m m₁ : Machine} {c : Placed}
    (hm : afterRuns budgets (start p capacity console canvas) = m) (hrunning : m.isRunning = true)
    (hdecode : p.decodeAt m.ip = .ok c) (hcall : c.opcode = .call) (hstep : step m = .ok () m₁) :
    ∃ header args locals, (c.operand 0).index? = some header.offset ∧
      p.decodeAt header.offset = .ok header ∧
      header.declared? = some (args, locals) ∧ args ≤ maxFrameSlots ∧ locals ≤ maxFrameSlots ∧
      args ≤ m.stack.size ∧
      ∀ j, (∀ i ≤ j, (advance^[i] m₁).frames.size ≠ m.frames.size) →
        let now := advance^[j] m₁
        let kept := m.stack.toList.take (m.stack.size - args)
        let undisturbed := ∀ i < j, m.stack.size - args ≤ (advance^[i] m₁).lowWater
        m.frames.toList <+: now.frames.toList ∧
        (undisturbed → kept <+: now.stack.toList) ∧
        (now.advance.frames.size = m.frames.size →
          now.advance.frames.toList = m.frames.toList ∧
          ∃ d, p.decodeAt now.ip = .ok d ∧ d.opcode.isReturn = true ∧
            ∀ m', step now = .ok () m' → m'.ip = c.offset + 9 ∧
              (undisturbed → Leaves d.opcode kept now.stack.toList m'.stack.toList)) := by
  have hsafe : Safe p m := hm ▸ safe_afterRuns hp (safe_start hp capacity console canvas) budgets
  obtain ⟨header, args, locals, hindex, hheader, hdeclared, hfew, hfew', hargs, hwithin,
    hsheltered⟩ := within_of_call hp hsafe hrunning hdecode hcall hstep
  refine ⟨header, args, locals, hindex, hheader, hdeclared, hfew, hfew', hargs,
    fun j hopen => ?_⟩
  rw [GuardedStack.size_eq m.frames] at hopen ⊢
  intro now kept undisturbed
  have hkept : kept.length = m.stack.size - args :=
    List.length_take_of_le (by rw [← GuardedStack.size_eq]; exact Nat.sub_le _ _)
  have hnow : Within p m.frames.toList _ now := within_iterate hp hwithin hopen
  have hvalues (hlow : undisturbed) : kept <+: now.stack.toList :=
    (sheltered_iterate hp hwithin hsheltered hopen fun i hi => hkept.trans_le (hlow i hi)).values
  refine ⟨?_, hvalues, fun hsize => ?_⟩
  · obtain ⟨deeper, hframes⟩ := hnow.frames
    exact ⟨_, hframes.symm⟩
  · rcases hnow.advance hp with hstay | ⟨hrunning', hbefore, hafter⟩
    · obtain ⟨deeper, hframes⟩ := hstay.frames
      rw [GuardedStack.size_eq, hframes] at hsize
      simp at hsize
    · obtain ⟨d, hd, hreturn, hleaves⟩ :=
        returns_of_frames hp hnow.safe hrunning' hbefore hafter
      refine ⟨hafter, d, hd, hreturn, fun m' hstep' => ?_⟩
      obtain ⟨hip, hleft⟩ := hleaves m' hstep'
      refine ⟨hip, fun hlow => ?_⟩
      have htake : now.stack.toList.take (m.stack.size - args) = kept := by
        rw [← hkept]
        exact (List.prefix_iff_eq_take.mp (hvalues hlow)).symm
      rw [Frame.callerDepth, htake] at hleft
      exact hleft

/-- A call with two values on the stack, of a function that returns its one argument. -/
def argumentExample : Program :=
  .ofCode (List.flatMap Instruction.encode
    [⟨.push, [.ofNat 0, .ofNat 1]⟩, ⟨.push, [.ofNat 0, .ofNat 2]⟩, ⟨.call, [.ofNat 49]⟩,
     ⟨.framed, [.ofNat 85, .ofNat 1, .ofNat 1]⟩, ⟨.getArg, [.ofNat 0]⟩, ⟨.ret, []⟩, ⟨.endFunc, []⟩])

/-- The header declares one argument, so the call leaves the lower value alone, and the return
puts the higher one on top of it. -/
theorem call_discipline_argumentExample :
    let m := afterRuns [2] (start argumentExample 8 (.ofInput []) (.blank "" none))
    argumentExample.verify = .ok () ∧ m.isRunning = true ∧
      m.stack.toList = [.ofNat 1, .ofNat 2] ∧
      ∃ c m₁ m₂, argumentExample.decodeAt m.ip = .ok c ∧ c.opcode = .call ∧
        step m = .ok () m₁ ∧ [.ofNat 1] <+: m₁.advance.stack.toList ∧
        step m₁.advance = .ok () m₂ ∧ m₂.ip = 49 ∧ m₂.stack.toList = [.ofNat 1, .ofNat 2] := by
  intro m
  have hp : argumentExample.verify = .ok () := by decide +kernel
  have hrunning : m.isRunning = true := by decide +kernel
  have hvalues : m.stack.toList = [.ofNat 1, .ofNat 2] := by decide +kernel
  have hdecode : argumentExample.decodeAt m.ip = .ok ⟨⟨.call, [.ofNat 49]⟩, 40⟩ := by decide +kernel
  obtain ⟨_, m₁, hstep⟩ : ∃ u m₁, step m = .ok u m₁ := exists_ok_of_leads (by decide +kernel)
  have hadvance := advance_of_ok hrunning hstep
  obtain ⟨_, m₂, hstep₂⟩ : ∃ u m₂, step m₁.advance = .ok u m₂ := by
    rw [← hadvance]
    exact exists_ok_of_leads (by decide +kernel)
  obtain ⟨header, args, locals, hindex, hheader, hdeclared, _, _, _, hinside⟩ :=
    call_discipline hp 8 (.ofInput []) (.blank "" none) [2] rfl hrunning hdecode rfl hstep
  obtain rfl : args = 1 := by
    have htarget : (Double.ofNat 49).index? = some 49 := by decide +kernel
    rw [← Option.some.inj (htarget.symm.trans hindex)] at hheader
    have hfound : argumentExample.decodeAt 49 =
        .ok ⟨⟨.framed, [.ofNat 85, .ofNat 1, .ofNat 1]⟩, 49⟩ := by decide +kernel
    rw [hfound, Except.ok.injEq] at hheader
    subst hheader
    have hcounts : Placed.declared? ⟨⟨.framed, [.ofNat 85, .ofNat 1, .ofNat 1]⟩, 49⟩ =
        some (1, 1) := by decide +kernel
    rw [hcounts] at hdeclared
    cases hdeclared
    rfl
  have hkept : m.stack.toList.take (m.stack.size - 1) = [.ofNat 1] := by decide +kernel
  -- All that is to be computed about the run from the call on.
  have hrun : (∀ i ≤ 1, (advance^[i] m₁).frames.size ≠ m.frames.size) ∧
      (∀ i < 1, m.stack.size - 1 ≤ (advance^[i] m₁).lowWater) ∧
      m₁.advance.advance.frames.size = m.frames.size ∧
      argumentExample.decodeAt m₁.advance.ip = .ok ⟨⟨.ret, []⟩, 83⟩ ∧
      m₁.advance.stack.toList.getLast? = some (.ofNat 2) := by
    rw [← hadvance]
    decide +kernel
  obtain ⟨hopen, hundisturbed, hends, hret, hlast⟩ := hrun
  obtain ⟨_, hkeeps, hreturn⟩ := hinside 1 hopen
  obtain ⟨_, d, hd, _, hleaves⟩ := hreturn hends
  rw [hkept] at hkeeps hleaves
  obtain ⟨hip, hleft⟩ := hleaves m₂ hstep₂
  obtain rfl : d = ⟨⟨.ret, []⟩, 83⟩ := Except.ok.inj (hd.symm.trans hret)
  obtain ⟨result, hresult, hafter⟩ := hleft hundisturbed
  obtain rfl : Double.ofNat 2 = result := Option.some.inj (hlast.symm.trans hresult)
  exact ⟨hp, hrunning, hvalues, _, m₁, m₂, hdecode, rfl, hstep, hkeeps hundisturbed, hstep₂, hip,
    hafter⟩

end Machine

end StackMachine
