import StackMachine.Proofs.Machine.Calls

/-!
# Locals and arguments

The locals of a call are on the value stack from the base of its frame on, and its arguments
right below.  Values that a function leaves there for a while lie above both, and so do the
locals of the functions that it calls.  So a local changes only when the function itself
stores a value in it, and an argument never does, as long as no instruction takes the stack
below the locals: every deeper frame has its base above them.

Main definitions:

- `Stores`, a machine that is about to store a value in a local;
- `Latest`, the value that was stored last.

Main results:

- Theorem `read_slot`: a slot whose place is on the stack can be read.
- Theorems `Sheltered.advance_of_stores`, `Sheltered.advance_of_not_stores`: what one
  instruction does to the locals of a call that has not ended.
- Theorem `latest_iterate`: the locals of a call are the values stored last.
- Theorem `slots_private`: what a function reads from its locals and arguments.
-/

namespace StackMachine

namespace Machine

/-- The next instruction stores a value in the local of the given number, while the frames are
the given ones. -/
structure Stores (frames : List Frame) (s : Nat) (v : Double) (m : Machine) : Prop where
  running : m.isRunning = true
  frames_eq : m.frames.toList = frames
  decoded : ∃ d, m.program.decodeAt m.ip = .ok d ∧ d.opcode = .setLocal ∧
    (d.operand 0).index? = some s
  succeeds : step m = .ok () m.advance
  value : m.stack.toList.getLast? = some v

/-- The value is the one stored last in a local by the next `j` instructions, or zero if they
store none. -/
def Latest (frames : List Frame) (s : Nat) (m : Machine) (j : Nat) (v : Double) : Prop :=
  (v = Double.zero ∧ ∀ i < j, ∀ w, ¬ Stores frames s w (advance^[i] m)) ∨
    ∃ i < j, Stores frames s v (advance^[i] m) ∧
      ∀ k, i < k → k < j → ∀ w, ¬ Stores frames s w (advance^[k] m)

section Slots

variable {p : Program} {m : Machine} {caller : List Frame} {f : Frame} {s : Nat} {v : Double}

/-! ## One instruction -/

/-- A slot whose place is on the stack can be read, and its value is pushed. -/
theorem read_slot (hp : p.verify = .ok ()) (hm : Safe p m) (hrunning : m.isRunning = true)
    {d : Placed} (hdecode : p.decodeAt m.ip = .ok d)
    (hop : d.opcode = .getLocal ∨ d.opcode = .getArg) (htop : m.frames.toList = caller ++ [f])
    (hslot : (d.operand 0).index? = some s) (hlt : s < f.slotCount d.opcode)
    (hcell : m.stack.toList[f.cell d.opcode s]? = some v) :
    ∃ m', step m = .ok () m' ∧ m'.stack.toList = m.stack.toList ++ [v] := by
  obtain ⟨d', hdecode', heffect⟩ := advance_effect hp hm hrunning
  obtain rfl : d' = d := Except.ok.inj (hdecode'.symm.trans hdecode)
  have htop' {fs : List Frame} {g : Frame}
      (h : (m.pastReading d').frames.toList = fs ++ [g]) : g = f := by
    have hlast := congrArg List.getLast? (h.symm.trans htop)
    simpa using hlast
  have hslot' {t : Nat} (h : (d'.operand 0).index? = some t) : t = s :=
    Option.some.inj (h.symm.trans hslot)
  rcases heffect with ⟨hstep, hcompleted⟩ | ⟨e, _, _, hfailed⟩
  · refine ⟨_, hstep, ?_⟩
    cases hcompleted with
    | got fs g t w _ hframes hindex _ hplace hvalues _ =>
      rw [htop' hframes, hslot' hindex] at hplace
      rw [hvalues, Option.some.inj (hplace.symm.trans hcell)]
      rfl
    | still h | jumped h | branched _ h | pushed _ h | popped _ h | unary _ _ _ h
    | binary _ _ _ _ h | setLocal _ _ _ _ _ h | called _ _ _ h | ended _ h | returned _ _ _ h
    | left _ h => rcases hop with hop | hop <;> simp [hop, Opcode.isHeader] at h
  · cases hfailed with
    | noFrame _ hframes _ _ =>
      have hnil : m.frames.toList = [] := hframes
      simp [hnil] at htop
    | noSlot _ _ _ hframes hindex _ _ =>
      have hle := hindex s hslot
      rw [htop' hframes] at hle
      exact absurd hlt (Nat.not_lt.mpr hle)
    | noCell _ _ _ _ _ hframes hindex _ hplace _ _ =>
      rw [htop' hframes, hslot' hindex] at hplace
      have hnone : m.stack.toList[f.cell d'.opcode s]? = none := List.getElem?_eq_none hplace
      rw [hnone] at hcell
      cases hcell
    | noValue h | noSecondValue _ h | fewArguments _ _ _ h | noResult h | shortReturn _ _ h
    | shortLeave _ h | noStoredValue _ _ _ h | noStoringCell _ _ _ _ _ h | badAddress _ h
    | badStoreAddress _ _ h | unprinted _ _ h | refused _ h =>
      rcases hop with hop | hop <;> simp [hop, Opcode.popsFirst] at h

/-- What an instruction that stores a value in a local does to the values. -/
theorem Completed.stores {i : Instruction} {m' : Machine} (h : Completed i m m')
    (hop : i.opcode = .setLocal) :
    ∃ fs f s vs v, m.frames.toList = fs ++ [f] ∧ (i.operand 0).index? = some s ∧
      s < f.localCount ∧ m.stack.toList = vs ++ [v] ∧ m'.stack.toList = vs.set (f.base + s) v := by
  cases h with
  | setLocal fs f s vs v _ htop hslot hlt hbefore _ hvalues _ =>
    exact ⟨fs, f, s, vs, v, htop, hslot, hlt, hbefore, hvalues⟩
  | still h | jumped h | branched _ h | pushed _ h | popped _ h | unary _ _ _ h
  | binary _ _ _ _ h | got _ _ _ _ h | called _ _ _ h | ended _ h | returned _ _ _ h
  | left _ h => simp [hop, Opcode.isHeader] at h

/-- A step stores a value in one slot at most. -/
theorem Stores.slot_unique {frames : List Frame} {t : Nat} {w : Double}
    (h : Stores frames s v m) (h' : Stores frames t w m) : t = s := by
  obtain ⟨d, hdecode, _, hindex⟩ := h.decoded
  obtain ⟨d', hdecode', _, hindex'⟩ := h'.decoded
  obtain rfl : d' = d := Except.ok.inj (hdecode'.symm.trans hdecode)
  exact Option.some.inj (hindex'.symm.trans hindex)

/-- A value that is stored replaces that of its local, and the other locals stay. -/
theorem Sheltered.advance_of_stores {below locals : List Double} (hp : p.verify = .ok ())
    (hm : Safe p m) (h : Sheltered (below ++ locals) (caller ++ [f]).length m)
    (hbase : f.base = below.length) (hcount : f.localCount = locals.length)
    (hlow : (below ++ locals).length ≤ m.lowWater)
    (hstores : Stores (caller ++ [f]) s v m) :
    Sheltered (below ++ locals.set s v) (caller ++ [f]).length m.advance := by
  obtain ⟨d, hdecode, hop, hslot⟩ := hstores.decoded
  rw [hm.program] at hdecode
  obtain ⟨fs, g, t, vs, w, htop, hindex, hlt, hbefore, hafter⟩ :=
    (completed_of_ok hp hm hstores.running hdecode hstores.succeeds).stores hop
  have htop' : m.frames.toList = fs ++ [g] := htop
  have hbefore' : m.stack.toList = vs ++ [w] := hbefore
  obtain rfl : t = s := Option.some.inj (hindex.symm.trans hslot)
  obtain rfl : g = f := by
    have hlast := congrArg List.getLast? (htop'.symm.trans hstores.frames_eq)
    simpa using hlast
  obtain rfl : w = v := by
    have hlast := hstores.value
    rw [hbefore', List.getLast?_concat] at hlast
    exact Option.some.inj hlast
  -- The value that is taken lies above the locals.
  have hheight : (below ++ locals).length ≤ vs.length := by
    simpa [lowWater, hstores.running, hm.program, hdecode, lowest, hop, top?_of_append htop',
      hslot, hlt, GuardedStack.size_eq, hbefore'] using hlow
  obtain ⟨rest, rfl⟩ : below ++ locals <+: vs :=
    List.prefix_of_prefix_length_le (hbefore' ▸ h.values) (List.prefix_append vs [w]) hheight
  have hset : m.advance.stack.toList = below ++ locals.set t w ++ rest := by
    have hlt' : t < locals.length := hcount ▸ hlt
    rw [hafter, hbase, List.append_assoc, List.set_append_right _ _ (Nat.le_add_right _ _),
      Nat.add_sub_cancel_left, List.set_append_left _ _ hlt', List.append_assoc]
  refine ⟨?_, ?_⟩
  · rw [hset]
    exact List.prefix_append _ _
  · obtain ⟨_, _, hreframed⟩ := advance_reframed hp hm hstores.running
    have hdepth : (caller ++ [g]).length ≤ m.frames.toList.length := by rw [hstores.frames_eq]
    simpa using hreframed.le_base hdepth h.values.length_le h.bases

/-- The values up to the locals stay, if the function in question stores none: deeper frames
have their locals further up. -/
theorem Sheltered.advance_of_not_stores {kept : List Double} (hp : p.verify = .ok ())
    (hm : Safe p m) (hframes : caller ++ [f] <+: m.frames.toList)
    (h : Sheltered kept (caller ++ [f]).length m) (hlow : kept.length ≤ m.lowWater)
    (hnone : ∀ s v, ¬ Stores (caller ++ [f]) s v m) :
    Sheltered kept (caller ++ [f]).length m.advance := by
  cases hrunning : m.isRunning with
  | false =>
    rw [advance_of_not_running hrunning]
    exact h
  | true =>
    refine h.advance_of_base hp hm hrunning hframes.length_le hlow ?_
    intro d hdecode hop hstep fs g htop
    obtain ⟨deeper, hdeeper⟩ := hframes
    cases deeper with
    | nil =>
      -- The frame on top is that of the function, which then stores a value.
      obtain ⟨_, _, s, vs, v, _, hslot, _, hbefore, _⟩ :=
        (completed_of_ok hp hm hrunning hdecode hstep).stores hop
      have hvalue : m.stack.toList.getLast? = some v := by
        rw [show m.stack.toList = vs ++ [v] from hbefore, List.getLast?_concat]
      have hframes' : m.frames.toList = caller ++ [f] := by rw [← hdeeper, List.append_nil]
      exact absurd ⟨hrunning, hframes', ⟨d, hm.program ▸ hdecode, hop, hslot⟩, hstep, hvalue⟩
        (hnone s v)
    | cons g' deeper =>
      have hwithin : Within p (caller ++ [f]) g' m := ⟨hm, deeper, hdeeper.symm⟩
      exact h.le_base hwithin htop

/-! ## Any number of instructions -/

/-- At the call each local is zero. -/
theorem latest_zero (frames : List Frame) (s : Nat) (m : Machine) :
    Latest frames s m 0 Double.zero := by
  left
  refine ⟨rfl, ?_⟩
  intro i hi
  exact absurd hi (Nat.not_lt_zero i)

/-- A value that has just been stored is the one stored last. -/
theorem latest_of_stores {frames : List Frame} {j : Nat}
    (h : Stores frames s v (advance^[j] m)) : Latest frames s m (j + 1) v := by
  right
  refine ⟨j, Nat.lt_succ_self j, h, ?_⟩
  intro k hk hk'
  omega

/-- A value stays the one stored last if the next instruction stores none. -/
theorem Latest.succ {frames : List Frame} {j : Nat} (h : Latest frames s m j v)
    (hnone : ∀ w, ¬ Stores frames s w (advance^[j] m)) : Latest frames s m (j + 1) v := by
  rcases h with ⟨hzero, hbefore⟩ | ⟨i, hi, hstores, hafter⟩
  · left
    refine ⟨hzero, ?_⟩
    intro i hi
    rcases Nat.lt_succ_iff_lt_or_eq.mp hi with hi | rfl
    · exact hbefore i hi
    · exact hnone
  · right
    refine ⟨i, Nat.lt_succ_of_lt hi, hstores, ?_⟩
    intro k hk hk'
    rcases Nat.lt_succ_iff_lt_or_eq.mp hk' with hk' | rfl
    · exact hafter k hk hk'
    · exact hnone

/-- A machine stays safe as it advances. -/
theorem safe_iterate (hp : p.verify = .ok ()) (hm : Safe p m) (j : Nat) :
    Safe p (advance^[j] m) := by
  induction j with
  | zero => exact hm
  | succ j ih =>
    rw [Function.iterate_succ_apply']
    exact safe_advance hp ih

/-- As long as the call has not ended and the stack is not taken below its locals, what was
below the locals stays, and each local has the value stored last. -/
theorem latest_iterate {below : List Double} (hp : p.verify = .ok ()) (hm : Safe p m)
    (hbase : f.base = below.length)
    (hstart : Sheltered (below ++ List.replicate f.localCount Double.zero) (caller ++ [f]).length m)
    {j : Nat} (hopen : ∀ i ≤ j, caller ++ [f] <+: (advance^[i] m).frames.toList)
    (hlow : ∀ i < j, f.base + f.localCount ≤ (advance^[i] m).lowWater) :
    ∃ locals, f.localCount = locals.length ∧
      Sheltered (below ++ locals) (caller ++ [f]).length (advance^[j] m) ∧
      ∀ s v, locals[s]? = some v → Latest (caller ++ [f]) s m j v := by
  induction j with
  | zero =>
    refine ⟨_, List.length_replicate.symm, hstart, ?_⟩
    intro s v hv
    rw [List.eq_of_mem_replicate (List.mem_of_getElem? hv)]
    exact latest_zero _ s m
  | succ j ih =>
    obtain ⟨locals, hcount, hnow, hlatest⟩ :=
      ih (fun i hi => hopen i (Nat.le_succ_of_le hi)) fun i hi => hlow i (Nat.lt_succ_of_lt hi)
    have hsafe := safe_iterate hp hm j
    have hlow' : (below ++ locals).length ≤ (advance^[j] m).lowWater := by
      rw [List.length_append, ← hbase, ← hcount]
      exact hlow j (Nat.lt_succ_self j)
    rw [Function.iterate_succ_apply']
    by_cases hstores : ∃ t w, Stores (caller ++ [f]) t w (advance^[j] m)
    · obtain ⟨t, w, hstores⟩ := hstores
      refine ⟨locals.set t w, by rw [List.length_set, hcount],
        hnow.advance_of_stores hp hsafe hbase hcount hlow' hstores, ?_⟩
      intro s v hv
      by_cases hs : s = t
      · subst hs
        obtain rfl : w = v := by
          have hlt : s < (locals.set s w).length := (List.getElem?_eq_some_iff.mp hv).1
          rw [List.getElem?_set_self (by rwa [List.length_set] at hlt)] at hv
          exact Option.some.inj hv
        exact latest_of_stores hstores
      · rw [List.getElem?_set_ne (Ne.symm hs)] at hv
        refine (hlatest s v hv).succ fun w' hstores' => ?_
        exact hs (hstores.slot_unique hstores')
    · have hnone : ∀ t w, ¬ Stores (caller ++ [f]) t w (advance^[j] m) := by
        intro t w h
        exact hstores ⟨t, w, h⟩
      refine ⟨locals, hcount, hnow.advance_of_not_stores hp hsafe
        (hopen j (Nat.le_succ j)) hlow' hnone, ?_⟩
      intro s v hv
      exact (hlatest s v hv).succ (hnone s)

end Slots

/-- After any runs of a verified program, take a call that succeeds, and consider the machine
after some instructions more, when the frame of the call has stayed all the time and none of
them has taken the stack below its locals.  The frame is for as many arguments and locals as the
header of the function declares.  If this frame is on top, an instruction that reads
a local of it succeeds and pushes the value that the function has stored there last, or zero
if it has stored none; and one that reads an argument succeeds and pushes the value that was
so far from the top of the stack at the call. -/
theorem slots_private {p : Program} (hp : p.verify = .ok ()) (capacity : Nat)
    (console : Console) (canvas : Canvas) (budgets : List Nat) {m m₁ : Machine} {c : Placed}
    (hm : afterRuns budgets (start p capacity console canvas) = m) (hrunning : m.isRunning = true)
    (hdecode : p.decodeAt m.ip = .ok c) (hcall : c.opcode = .call) (hstep : step m = .ok () m₁) :
    ∃ f, m₁.frames.toList = m.frames.toList ++ [f] ∧ f.base = m.stack.size ∧
      f.argCount ≤ f.base ∧
      (∃ header, (c.operand 0).index? = some header.offset ∧
        p.decodeAt header.offset = .ok header ∧
        header.declared? = some (f.argCount, f.localCount)) ∧
      ∀ j, (∀ i ≤ j, m₁.frames.toList <+: (advance^[i] m₁).frames.toList) →
        (∀ i < j, f.base + f.localCount ≤ (advance^[i] m₁).lowWater) →
        let now := advance^[j] m₁
        now.isRunning = true → now.frames.toList = m₁.frames.toList →
        ∀ d s, p.decodeAt now.ip = .ok d → (d.operand 0).index? = some s →
          (d.opcode = .getLocal → s < f.localCount →
            ∃ v m', Latest m₁.frames.toList s m₁ j v ∧ step now = .ok () m' ∧
              m'.stack.toList = now.stack.toList ++ [v]) ∧
          (d.opcode = .getArg → s < f.argCount →
            ∃ v m', m.stack.toList.reverse[s]? = some v ∧ step now = .ok () m' ∧
              m'.stack.toList = now.stack.toList ++ [v]) := by
  have hsafe : Safe p m := hm ▸ safe_afterRuns hp (safe_start hp capacity console canvas) budgets
  have hsafe₁ : Safe p m₁ := advance_of_ok hrunning hstep ▸ safe_advance hp hsafe
  obtain ⟨f, hbase, hargs, hdeclared, hvalues, hframes⟩ : ∃ f : Frame,
      f.base = m.stack.toList.length ∧ f.argCount ≤ f.base ∧
      (∃ header, (c.operand 0).index? = some header.offset ∧
        p.decodeAt header.offset = .ok header ∧
        header.declared? = some (f.argCount, f.localCount)) ∧
      m₁.stack.toList = m.stack.toList ++ List.replicate f.localCount Double.zero ∧
      m₁.frames.toList = m.frames.toList ++ [f] := by
    obtain ⟨header, args, locals, hindex, hheader, hdeclared, _, _, hargs, hvalues, hframes⟩ :=
      (completed_of_ok hp hsafe hrunning hdecode hstep).enters hcall
    exact ⟨⟨c.next, m.stack.toList.length, args, locals⟩, rfl, hargs,
      ⟨header, hindex, hsafe.program ▸ hheader, hdeclared⟩, hvalues, hframes⟩
  refine ⟨f, hframes, by rw [hbase, GuardedStack.size_eq], hargs, hdeclared, ?_⟩
  intro j hopen hlow now hnow htop d s hd hslot
  rw [hframes] at hopen htop ⊢
  have hstart : Sheltered (m.stack.toList ++ List.replicate f.localCount Double.zero)
      (m.frames.toList ++ [f]).length m₁ := by
    refine ⟨hvalues ▸ List.prefix_rfl, ?_⟩
    rw [hframes, List.drop_length]
    simp
  obtain ⟨locals, hcount, hlocals, hlatest⟩ := latest_iterate hp hsafe₁ hbase hstart hopen hlow
  obtain ⟨rest, hrest⟩ := hlocals.values
  have hsafe' := safe_iterate hp hsafe₁ j
  refine ⟨?_, ?_⟩
  · intro hop hlt
    obtain ⟨v, hv⟩ : ∃ v, locals[s]? = some v := ⟨_, List.getElem?_eq_getElem (hcount ▸ hlt)⟩
    have hcell : now.stack.toList[f.cell d.opcode s]? = some v := by
      have hplace : f.cell d.opcode s = m.stack.toList.length + s := by rw [hop, ← hbase]; rfl
      rw [← hrest, hplace, List.append_assoc, List.getElem?_append_right (Nat.le_add_right _ _),
        Nat.add_sub_cancel_left, List.getElem?_append_left (hcount ▸ hlt), hv]
    obtain ⟨m', hok, hpushed⟩ :=
      read_slot hp hsafe' hnow hd (.inl hop) htop hslot (by rwa [hop]) hcell
    exact ⟨v, m', hlatest s v hv, hok, hpushed⟩
  · intro hop hlt
    have hlt' : s < m.stack.toList.length := by omega
    obtain ⟨v, hv⟩ : ∃ v, m.stack.toList.reverse[s]? = some v :=
      ⟨_, List.getElem?_eq_getElem (by rwa [List.length_reverse])⟩
    have hcell : now.stack.toList[f.cell d.opcode s]? = some v := by
      have hplace : f.cell d.opcode s = m.stack.toList.length - 1 - s := by rw [hop, ← hbase]; rfl
      rw [List.getElem?_reverse hlt'] at hv
      rw [← hrest, hplace, List.append_assoc, List.getElem?_append_left (by omega), hv]
    obtain ⟨m', hok, hpushed⟩ :=
      read_slot hp hsafe' hnow hd (.inr hop) htop hslot (by rwa [hop]) hcell
    exact ⟨v, m', hv, hok, hpushed⟩

/-- A function that stores its argument in a local, calls another that stores a value in a
local of its own, and returns the first local. -/
def storedExample : Program :=
  .ofCode (List.flatMap Instruction.encode
    [⟨.push, [.ofNat 0, .ofNat 7]⟩, ⟨.call, [.ofNat 33]⟩, ⟨.stop, []⟩,
     ⟨.framed, [.ofNat 96, .ofNat 1, .ofNat 2]⟩, ⟨.getArg, [.ofNat 0]⟩, ⟨.setLocal, [.ofNat 1]⟩,
     ⟨.call, [.ofNat 96]⟩, ⟨.getLocal, [.ofNat 1]⟩, ⟨.ret, []⟩, ⟨.endFunc, []⟩,
     ⟨.framed, [.ofNat 149, .ofNat 0, .ofNat 1]⟩, ⟨.push, [.ofNat 0, .ofNat 9]⟩,
     ⟨.setLocal, [.ofNat 0]⟩, ⟨.leave, []⟩, ⟨.endFunc, []⟩])

/-- The function reads its argument, and later finds the value that it has stored in its local,
although the function that it calls stores a value in a local too. -/
theorem slots_private_storedExample :
    let m := afterRuns [1] (start storedExample 8 (.ofInput []) (.blank "" none))
    storedExample.verify = .ok () ∧ m.isRunning = true ∧
      ∃ c m₁, storedExample.decodeAt m.ip = .ok c ∧ c.opcode = .call ∧ step m = .ok () m₁ ∧
        (∃ v m', m.stack.toList.reverse[0]? = some v ∧ step m₁ = .ok () m' ∧
          m'.stack.toList = m₁.stack.toList ++ [v]) ∧
        ∃ v m', Latest m₁.frames.toList 1 m₁ 6 v ∧ step (advance^[6] m₁) = .ok () m' ∧
          m'.stack.toList = (advance^[6] m₁).stack.toList ++ [v] := by
  intro m
  have hp : storedExample.verify = .ok () := by decide +kernel
  have hrunning : m.isRunning = true := by decide +kernel
  have hdecode : storedExample.decodeAt m.ip = .ok ⟨⟨.call, [.ofNat 33]⟩, 23⟩ := by decide +kernel
  obtain ⟨_, m₁, hstep⟩ : ∃ u m₁, step m = .ok u m₁ := exists_ok_of_leads (by decide +kernel)
  have hadvance := advance_of_ok hrunning hstep
  obtain ⟨f, hframes, hbase, _, _, hslots⟩ :=
    slots_private hp 8 (.ofInput []) (.blank "" none) [1] rfl hrunning hdecode rfl hstep
  -- All that is to be computed about the run from the call on.
  have hrun : m₁.frames.toList.getLast? = some ⟨32, 1, 1, 2⟩ ∧
      (∀ i ≤ 6, m₁.frames.toList <+: (advance^[i] m₁).frames.toList) ∧
      (∀ i < 6, 3 ≤ (advance^[i] m₁).lowWater) ∧
      (m₁.isRunning = true ∧ storedExample.decodeAt m₁.ip = .ok ⟨⟨.getArg, [.ofNat 0]⟩, 58⟩) ∧
      (advance^[6] m₁).isRunning = true ∧ (advance^[6] m₁).frames.toList = m₁.frames.toList ∧
      storedExample.decodeAt (advance^[6] m₁).ip = .ok ⟨⟨.getLocal, [.ofNat 1]⟩, 85⟩ := by
    rw [← hadvance]
    decide +kernel
  obtain ⟨hlast, hopen, hlow, ⟨hnow₀, hd₀⟩, hnow, htop, hd⟩ := hrun
  obtain rfl : f = ⟨32, 1, 1, 2⟩ := by
    rw [hframes, List.getLast?_concat] at hlast
    exact Option.some.inj hlast
  refine ⟨hp, hrunning, _, m₁, hdecode, rfl, hstep, ?_, ?_⟩
  · have hbefore : (∀ i ≤ 0, m₁.frames.toList <+: (advance^[i] m₁).frames.toList) ∧
        ∀ i < 0, 3 ≤ (advance^[i] m₁).lowWater :=
      ⟨fun i hi => hopen i (hi.trans (Nat.zero_le 6)), fun i hi => absurd hi (Nat.not_lt_zero i)⟩
    exact (hslots 0 hbefore.1 hbefore.2 hnow₀ rfl _ 0 hd₀ (by decide +kernel)).2 rfl (by decide)
  · exact (hslots 6 hopen hlow hnow htop _ 1 hd (by decide +kernel)).1 rfl (by decide)

end Machine

end StackMachine
