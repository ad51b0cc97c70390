import StackMachine.Proofs.Machine.Effect

/-!
# Programs that only go forward stop

Where every jump and every call leads forward, only returns go back, and each of them uses
up the frame of a call.  A call may be made often, since the function that makes it may be
called often itself, so no count of instructions bounds a run at sight.  What does is a
potential: the instruction pointer and every return address weigh the more the further they
are from the end.  A call trades one weight for two lighter ones, and their sum is still
less.

Main definitions:

- `Program.Forward`, programs whose jumps and calls go forward;
- `potential`, the weights of the instruction pointer and of the return addresses;
- `Moved`, how an instruction changes where execution goes on.

Main results:

- Theorem `potential_lt`: every instruction that completes lowers the potential.
- Theorem `runSteps_stops`: a run has stopped after as many steps as the potential.
- Theorem `run_stops`: a run of a forward program stops, from wherever earlier runs led.
-/

namespace StackMachine

/-- Whether an instruction names the place where execution goes on: it jumps or calls. -/
def Opcode.isTransfer : Opcode → Bool
  | jump | branch _ | call => true
  | _ => false

/-- Every jump and every call of the program leads to a greater offset than its own. -/
def Program.Forward (p : Program) : Prop :=
  ∀ ds, p.decode = .ok ds → ∀ d ∈ ds, d.opcode.isTransfer = true →
    ∀ t, (d.operand 0).index? = some t → d.offset < t

namespace Machine

/-! ## Weights -/

/-- The weight of an offset in a program of the given length. -/
def weight (length offset : Nat) : Nat := 3 ^ (length - offset)

theorem weight_pos (length offset : Nat) : 0 < weight length offset := Nat.pow_pos (by decide)

/-- Two offsets further on weigh less than one. -/
theorem weight_add_lt {length offset x y : Nat} (hlt : offset < length) (hx : offset < x)
    (hy : offset < y) : weight length x + weight length y < weight length offset := by
  have hle {z : Nat} (hz : offset < z) : weight length z ≤ 3 ^ (length - offset - 1) :=
    Nat.pow_le_pow_right (by decide) (by omega)
  have hpos : 0 < 3 ^ (length - offset - 1) := Nat.pow_pos (by decide)
  have hthree : weight length offset = 3 * 3 ^ (length - offset - 1) := by
    rw [weight, ← Nat.pow_succ']
    congr 1
    omega
  have hx' := hle hx
  have hy' := hle hy
  omega

/-- Later offsets weigh less, inside of the program. -/
theorem weight_lt {length offset x : Nat} (hlt : offset < length) (hx : offset < x) :
    weight length x < weight length offset :=
  (Nat.le_add_right _ _).trans_lt (weight_add_lt hlt hx hx)

/-- The weights of the instruction pointer and of all return addresses. -/
def potential (m : Machine) : Nat :=
  weight m.program.size m.ip +
    (m.frames.toList.map fun f => weight m.program.size f.returnAddress).sum

theorem potential_pos (m : Machine) : 0 < potential m :=
  Nat.add_pos_left (weight_pos _ _) _

/-! ## One instruction -/

/-- How an instruction at an offset changes where execution goes on, and will go on after
returns. -/
inductive Moved (offset : Nat) (m m' : Machine) : Prop where
  | onward (hip : offset < m'.ip) (hframes : m'.frames.toList = m.frames.toList)
  | called (f : Frame) (hip : offset < m'.ip) (hreturn : offset < f.returnAddress)
      (hframes : m'.frames.toList = m.frames.toList ++ [f])
  | returned (f : Frame) (hip : m'.ip = f.returnAddress)
      (hframes : m.frames.toList = m'.frames.toList ++ [f])

section Forward

variable {p : Program} {m m' : Machine}

theorem offset_lt_next (d : Placed) : d.offset < d.next :=
  Nat.lt_add_of_pos_right d.opcode.size_pos

/-- An instruction that completes goes on further ahead, unless it returns. -/
theorem Completed.moved {d : Placed} (h : Completed d.toInstruction (m.pastReading d) m')
    (htransfer : d.opcode.isTransfer = true → ∀ t, (d.operand 0).index? = some t → d.offset < t)
    (hheader : d.opcode.isHeader = true → ∀ t, (d.operand 0).index? = some t → d.offset < t) :
    Moved d.offset m m' := by
  have hline (hline : InLine (m.pastReading d) m') : Moved d.offset m m' :=
    .onward (hline.ip.symm ▸ offset_lt_next d) hline.frames
  cases h with
  | still _ _ hin | pushed _ _ _ hin | popped _ _ _ hin | unary _ _ _ _ _ _ hin
  | binary _ _ _ _ _ _ _ hin | got _ _ _ _ _ _ _ _ _ _ hin
  | setLocal _ _ _ _ _ _ _ _ _ _ _ _ hin => exact hline hin
  | jumped hop htarget _ hframes =>
    refine .onward ?_ hframes
    rcases hop with hop | hop
    · exact htransfer (by rw [hop]; rfl) _ htarget
    · exact hheader hop _ htarget
  | branched condition hop _ htarget _ hframes =>
    refine .onward ?_ hframes
    rcases htarget with hip | htarget
    · exact hip.symm ▸ offset_lt_next d
    · exact htransfer (by rw [hop]; rfl) _ htarget
  | called header _ _ hop hindex _ _ _ _ hframes hip =>
    have hentry : d.offset < header.offset := htransfer (by rw [hop]; rfl) _ hindex
    exact .called _ (hip.symm ▸ hentry.trans (offset_lt_next header)) (offset_lt_next d) hframes
  | ended f _ hframes _ hip | returned f _ _ _ hframes _ _ _ hip | left f _ hframes _ _ hip =>
    exact .returned f hip hframes

/-- Moving on lowers the potential. -/
theorem Moved.potential_lt (h : Moved m.ip m m') (hprogram : m'.program = m.program)
    (hlt : m.ip < m.program.size) : potential m' < potential m := by
  unfold potential
  rw [hprogram]
  cases h with
  | onward hip hframes =>
    rw [hframes]
    exact Nat.add_lt_add_right (weight_lt hlt hip) _
  | called f hip hreturn hframes =>
    have htrade := weight_add_lt hlt hip hreturn
    rw [hframes, List.map_append, List.sum_append]
    simp only [List.map_cons, List.map_nil, List.sum_cons, List.sum_nil]
    omega
  | returned f hip hframes =>
    have hspent := weight_pos m.program.size m.ip
    rw [hframes, List.map_append, List.sum_append, hip]
    simp only [List.map_cons, List.map_nil, List.sum_cons, List.sum_nil]
    omega

/-- Every instruction of a forward program that completes lowers the potential. -/
theorem potential_lt (hp : p.verify = .ok ()) (hforward : p.Forward) (hm : Safe p m)
    (hrunning : m.isRunning = true) (hstep : step m = .ok () m') : potential m' < potential m := by
  obtain ⟨ds, hds, hadmits⟩ := Program.verify_eq_ok.mp hp
  obtain ⟨d, hd, hoffset, hdecode⟩ := hm.decodeAt_ip hds hrunning
  have hcompleted := completed_of_ok hp hm hrunning (hm.program ▸ hdecode) hstep
  have hheader (hop : d.opcode.isHeader = true) (t : Nat)
      (ht : (d.operand 0).index? = some t) : d.offset < t := by
    obtain ⟨_, hend, _, _, hpast, _⟩ := hadmits d hd _ (mem_zipIdx_of_isHeader hop)
    rw [hend] at ht
    cases ht
    exact hpast
  have hmoved := hcompleted.moved (hforward ds hds d hd) hheader
  have hsafe : Safe p m' := advance_of_ok hrunning hstep ▸ safe_advance hp hm
  rw [hoffset] at hmoved
  refine hmoved.potential_lt (hsafe.program.trans hm.program.symm) ?_
  rw [isRunning, Bool.and_eq_true, decide_eq_true_iff] at hrunning
  exact hrunning.2

/-! ## Runs -/

/-- A run of a forward program has stopped after as many steps as the potential. -/
theorem runSteps_stops (hp : p.verify = .ok ()) (hforward : p.Forward) (hm : Safe p m) {n : Nat}
    (hn : potential m ≤ n) :
    ∃ o m', (o = .finished ∨ ∃ e, o = .interrupted (.failure e)) ∧
      ∀ k, n ≤ k → runSteps k m = (o, m') := by
  induction n generalizing m with
  | zero => exact absurd (potential_pos m) (Nat.not_lt.mpr hn)
  | succ n ih =>
    -- Allowed more steps than there are, a run makes the first one.
    have hfirst {o : Outcome} {m' : Machine} (h : ∀ k, n ≤ k → runSteps (k + 1) m = (o, m')) :
        ∀ k, n + 1 ≤ k → runSteps k m = (o, m') := by
      intro k hk
      obtain ⟨k, rfl⟩ := Nat.exists_eq_add_one_of_ne_zero (Nat.ne_zero_of_lt hk)
      exact h k (Nat.le_of_succ_le_succ hk)
    cases hrunning : m.isRunning with
    | false => exact ⟨.finished, m, .inl rfl, hfirst fun k _ => by simp [runSteps, hrunning]⟩
    | true =>
      cases hstep : step m with
      | ok _ m' =>
        have hsafe : Safe p m' := advance_of_ok hrunning hstep ▸ safe_advance hp hm
        have hlower := potential_lt hp hforward hm hrunning hstep
        obtain ⟨o, m'', hstops, hrun⟩ := ih hsafe (by omega)
        refine ⟨o, m'', hstops, hfirst fun k hk => ?_⟩
        simp only [runSteps, hrunning, hstep, if_true]
        exact hrun k hk
      | error r m' =>
        obtain ⟨_, _, hfails⟩ := step_safe hp hm hrunning
        rw [Leads, hstep] at hfails
        obtain ⟨⟨e, rfl, _⟩, _⟩ := hfails
        exact ⟨_, m', .inr ⟨e, rfl⟩, hfirst fun k _ => by simp [runSteps, hrunning, hstep]⟩

end Forward

/-- A run of a verified forward program stops by itself or fails, from wherever earlier runs
led: with as many steps as the potential or more, it ends in the same way. -/
theorem run_stops {p : Program} (hp : p.verify = .ok ()) (hforward : p.Forward) (capacity : Nat)
    (console : Console) (canvas : Canvas) (budgets : List Nat) :
    let m := afterRuns budgets (start p capacity console canvas)
    ∃ o m', (o = .finished ∨ ∃ e, o = .interrupted (.failure e)) ∧
      ∀ n, potential m ≤ n → run n m = (o, m') := by
  intro m
  have hm : Safe p m := safe_afterRuns hp (safe_start hp capacity console canvas) budgets
  have hstart : Safe p m.noteStart := hm.of_eq rfl rfl rfl rfl
  obtain ⟨o, m', hstops, hrun⟩ := runSteps_stops hp hforward hstart (Nat.le_refl _)
  refine ⟨o, noteEnd o m', hstops, fun n hn => ?_⟩
  rw [run, hrun n hn]

/-- Two calls of a function, and the function. -/
def twiceExample : Program :=
  .ofCode (List.flatMap Instruction.encode
    [⟨.call, [.ofNat 24]⟩, ⟨.call, [.ofNat 24]⟩, ⟨.func, [.ofNat 34]⟩, ⟨.endFunc, []⟩])

/-- The program has no way back but the returns, so that all runs that are long enough end alike. -/
theorem run_stops_twiceExample :
    let m := afterRuns [1] (start twiceExample 8 (.ofInput []) (.blank "" none))
    twiceExample.verify = .ok () ∧ twiceExample.Forward ∧
      ∃ o m', (o = .finished ∨ ∃ e, o = .interrupted (.failure e)) ∧
        ∀ n, potential m ≤ n → run n m = (o, m') := by
  have hp : twiceExample.verify = .ok () := by decide +kernel
  have hforward : twiceExample.Forward := by
    intro ds hds d hd htransfer t ht
    have hdecode : twiceExample.decode = .ok
        [⟨⟨.call, [.ofNat 24]⟩, 6⟩, ⟨⟨.call, [.ofNat 24]⟩, 15⟩, ⟨⟨.func, [.ofNat 34]⟩, 24⟩,
         ⟨⟨.endFunc, []⟩, 33⟩] := by decide +kernel
    have hindex : (Double.ofNat 24).index? = some 24 := by decide +kernel
    rw [hdecode] at hds
    cases hds
    simp only [List.mem_cons, List.not_mem_nil, or_false] at hd
    rcases hd with rfl | rfl | rfl | rfl
    · cases hindex.symm.trans ht
      decide
    · cases hindex.symm.trans ht
      decide
    · cases htransfer
    · cases htransfer
  exact ⟨hp, hforward, run_stops hp hforward 8 (.ofInput []) (.blank "" none) [1]⟩

end Machine

end StackMachine
