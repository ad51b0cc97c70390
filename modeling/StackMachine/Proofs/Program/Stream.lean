import Mathlib.Data.List.Chain
import Mathlib.Data.List.Nodup
import StackMachine.Program.Basic
import StackMachine.Proofs.Double.Bytes

/-!
# Instruction streams

A stream is the instructions it decodes to, written one after the other: decoding finds
each instruction where the one before it ends, and the encodings of what it finds are the
bytes it read.  Both directions are stated on the bytes from an offset on, so that they
follow the recursion of `Program.decodeFrom`.

Main results:

- Theorems `Program.drop_of_decodeAt`, `Program.decodeAt_of_drop`: an instruction is decoded
  at an offset where its encoding is.
- Theorem `Program.decodeFrom_of_encode`: encodings decode to their instructions.
- Theorem `Program.encode_of_decodeFrom`: the instructions of a stream encode to it.
- Theorem `Program.encode_of_decodeFrom_error`: those before one that cannot be decoded encode
  to the bytes before it.
- Theorem `Program.landing_next`: the offset after an instruction is that of the next one,
  or the end of the program.
- Theorem `Program.ofCode_of_decode`: a program is determined by its instructions.
- Theorem `Program.decode_encode_inverse`: what any bytes decode to, and what encodings do.
-/

namespace StackMachine

/-- An opcode is found by its own byte only. -/
theorem Opcode.toByte_of_ofByte? {byte : UInt8} {op : Opcode}
    (hop : Opcode.ofByte? byte = some op) : op.toByte = byte := by
  obtain ⟨hlt, hget⟩ := List.getElem?_eq_some_iff.mp hop
  have hnodup : Opcode.all.Nodup := by decide
  have hindex : Opcode.all.idxOf op = byte.toNat := by
    rw [← hget, List.Nodup.idxOf_getElem hnodup]
  rw [Opcode.toByte, hindex]
  exact UInt8.ofNat_toNat

theorem Opcode.size_pos (op : Opcode) : 0 < op.size := by
  unfold Opcode.size
  omega

/-! ## Encoding -/

namespace Instruction

/-- Whether an instruction has as many operands as its opcode takes. -/
def HasArity (i : Instruction) : Prop := i.operands.length = i.opcode.arity

/-- Doubles have eight bytes each. -/
theorem length_flatMap_toBytes (values : List Double) :
    (values.flatMap Double.toBytes).length = 8 * values.length := by
  induction values with
  | nil => rfl
  | cons v vs ih =>
    rw [List.flatMap_cons, List.length_append, ih, Double.length_toBytes, List.length_cons,
      Double.width]
    omega

/-- An instruction with all its operands has as many bytes as its opcode says. -/
theorem length_encode {i : Instruction} (hi : i.HasArity) : i.encode.length = i.opcode.size := by
  rw [encode, List.length_cons, length_flatMap_toBytes, hi, Opcode.size]
  omega

/-- How many bytes instructions take depends on their opcodes only. -/
theorem length_flatMap_encode {is : List Instruction} (his : ∀ i ∈ is, i.HasArity) :
    (is.flatMap encode).length = (is.map fun i => i.opcode.size).sum := by
  induction is with
  | nil => rfl
  | cons i is ih =>
    rw [List.forall_mem_cons] at his
    rw [List.flatMap_cons, List.length_append, length_encode his.1, ih his.2, List.map_cons,
      List.sum_cons]

end Instruction

/-- So many doubles from the start of some bytes. -/
def doublesOf : Nat → List UInt8 → List Double
  | 0, _ => []
  | n + 1, bytes => Double.ofBytes (bytes.take 8) :: doublesOf n (bytes.drop 8)

@[simp] theorem length_doublesOf (n : Nat) (bytes : List UInt8) : (doublesOf n bytes).length = n := by
  induction n generalizing bytes with
  | zero => rfl
  | succ n ih => simp [doublesOf, ih]

/-- Doubles are read back from their bytes. -/
theorem doublesOf_flatMap_toBytes (values : List Double) (rest : List UInt8) :
    doublesOf values.length (values.flatMap Double.toBytes ++ rest) = values := by
  induction values with
  | nil => rfl
  | cons v vs ih =>
    have hlen : v.toBytes.length = 8 := v.length_toBytes
    rw [List.flatMap_cons, List.append_assoc, List.length_cons, doublesOf,
      List.take_left' hlen, List.drop_left' hlen, Double.ofBytes_toBytes, ih]

/-- Bytes are written back from their doubles. -/
theorem flatMap_toBytes_doublesOf {n : Nat} {bytes : List UInt8} (hlen : 8 * n ≤ bytes.length) :
    (doublesOf n bytes).flatMap Double.toBytes = bytes.take (8 * n) := by
  induction n generalizing bytes with
  | zero => rfl
  | succ n ih =>
    have htake : (bytes.take 8).length = Double.width := by
      rw [List.length_take, Double.width]
      omega
    have hdrop : 8 * n ≤ (bytes.drop 8).length := by
      rw [List.length_drop]
      omega
    rw [doublesOf, List.flatMap_cons, Double.toBytes_ofBytes htake, ih hdrop,
      show 8 * (n + 1) = 8 + 8 * n by omega, List.take_add]

/-- Bytes that no instruction starts: the first is not that of an opcode, or the operands are
cut short. -/
def Unreadable (bytes : List UInt8) : Prop :=
  ∃ byte rest, bytes = byte :: rest ∧
    (43 ≤ byte.toNat ∨ ∃ op : Opcode, op.toByte = byte ∧ rest.length < 8 * op.arity)

namespace Program

theorem eq_of_bytes {p q : Program} (hbytes : p.bytes = q.bytes) : p = q := by
  cases p
  cases q
  cases hbytes
  rfl

/-! ## Decoding at an offset -/

/-- Every program has room for the signature. -/
theorem codeStart_le_size (p : Program) : codeStart ≤ p.size := by
  have hlen := congrArg List.length p.signed
  rw [List.length_take, Array.length_toList] at hlen
  have : signature.length = codeStart := rfl
  rw [size]
  omega

theorem length_drop_toList (p : Program) (offset : Nat) :
    (p.bytes.toList.drop offset).length = p.size - offset := by
  rw [List.length_drop, Array.length_toList, size]

theorem doubleAt_eq (p : Program) (offset : Nat) :
    p.doubleAt offset = Double.ofBytes ((p.bytes.toList.drop offset).take 8) := by
  have hwidth : offset + Double.width - offset = 8 := by simp [Double.width]
  rw [doubleAt, Array.toList_extract, List.extract_eq_take_drop, hwidth]

/-- The doubles at offsets one after the other are those that the bytes hold. -/
theorem map_doubleAt_eq (p : Program) (offset n : Nat) :
    (List.range n).map (fun i => p.doubleAt (offset + Double.width * i)) =
      doublesOf n (p.bytes.toList.drop offset) := by
  induction n generalizing offset with
  | zero => rfl
  | succ n ih =>
    have hshift : (fun i => p.doubleAt (offset + Double.width * i)) ∘ Nat.succ =
        fun i => p.doubleAt (offset + 8 + Double.width * i) := by
      funext i
      simp only [Function.comp, Double.width]
      congr 1
      omega
    rw [List.range_succ_eq_map, List.map_cons, List.map_map, hshift, ih, doublesOf,
      List.drop_drop, doubleAt_eq, Nat.mul_zero, Nat.add_zero]

/-- The operands of an instruction are the doubles that the bytes after its opcode hold. -/
theorem operandsAt_eq (p : Program) (offset : Nat) (op : Opcode) :
    p.operandsAt offset op = doublesOf op.arity (p.bytes.toList.drop (offset + 1)) :=
  p.map_doubleAt_eq (offset + 1) op.arity

/-- What it takes for an instruction to be decoded at an offset. -/
theorem decodeAt_eq_ok {p : Program} {offset : Nat} {d : Placed}
    (hd : p.decodeAt offset = .ok d) :
    ∃ byte, p.bytes[offset]? = some byte ∧ Opcode.ofByte? byte = some d.opcode ∧
      offset + d.opcode.size ≤ p.size ∧ d.offset = offset ∧
      d.operands = p.operandsAt offset d.opcode := by
  unfold decodeAt at hd
  split at hd
  · cases hd
  · rename_i byte hbyte
    split at hd
    · cases hd
    · rename_i op hop
      have hlt := (Array.getElem?_eq_some_iff.mp hbyte).1
      simp only at hd
      split at hd
      · cases hd
      · cases hd
        refine ⟨byte, hbyte, hop, ?_, rfl, rfl⟩
        unfold size at *
        simp only
        omega

/-- An instruction that is decoded has all its operands. -/
theorem hasArity_of_decodeAt {p : Program} {offset : Nat} {d : Placed}
    (hd : p.decodeAt offset = .ok d) : d.HasArity := by
  obtain ⟨_, _, _, _, _, hoperands⟩ := decodeAt_eq_ok hd
  rw [Instruction.HasArity, hoperands, operandsAt_eq, length_doublesOf]

/-- The encoding of a decoded instruction is at its offset. -/
theorem drop_of_decodeAt {p : Program} {offset : Nat} {d : Placed}
    (hd : p.decodeAt offset = .ok d) :
    p.bytes.toList.drop offset = d.encode ++ p.bytes.toList.drop d.next := by
  obtain ⟨byte, hbyte, hop, hfits, hoffset, hoperands⟩ := decodeAt_eq_ok hd
  obtain ⟨hlt, hget⟩ := Array.getElem?_eq_some_iff.mp hbyte
  have hsize : d.opcode.size = 1 + 8 * d.opcode.arity := rfl
  have hroom : 8 * d.opcode.arity ≤ (p.bytes.toList.drop (offset + 1)).length := by
    rw [length_drop_toList]
    omega
  have hnext : d.next = offset + 1 + 8 * d.opcode.arity := by
    rw [Placed.next, hoffset, hsize]
    omega
  have htail : p.bytes.toList.drop d.next =
      (p.bytes.toList.drop (offset + 1)).drop (8 * d.opcode.arity) := by
    rw [hnext, List.drop_drop]
  rw [List.drop_eq_getElem_cons (by simpa using hlt), Instruction.encode,
    Opcode.toByte_of_ofByte? hop, hoperands, operandsAt_eq, flatMap_toBytes_doublesOf hroom, htail,
    List.cons_append, List.take_append_drop, Array.getElem_toList, hget]

/-- An instruction is decoded where its encoding is. -/
theorem decodeAt_of_drop {p : Program} {offset : Nat} {i : Instruction} {rest : List UInt8}
    (hi : i.HasArity) (hdrop : p.bytes.toList.drop offset = i.encode ++ rest) :
    p.decodeAt offset = .ok ⟨i, offset⟩ := by
  have hlen := congrArg List.length hdrop
  rw [length_drop_toList, List.length_append, Instruction.length_encode hi] at hlen
  have hpos := i.opcode.size_pos
  have hbyte : p.bytes[offset]? = some i.opcode.toByte := by
    rw [← Array.getElem?_toList, ← List.head?_drop, hdrop]
    rfl
  have htail : p.bytes.toList.drop (offset + 1) = i.operands.flatMap Double.toBytes ++ rest := by
    rw [← List.tail_drop, hdrop]
    rfl
  have hoperands : p.operandsAt offset i.opcode = i.operands := by
    rw [operandsAt_eq, htail, ← hi, doublesOf_flatMap_toBytes]
  simp only [decodeAt, hbyte, Opcode.ofByte?_toByte, hoperands]
  rw [if_neg (by omega)]

/-- Where decoding fails inside of a program, no instruction can be read. -/
theorem unreadable_of_decodeAt {p : Program} {offset : Nat} {e : CodeError}
    (hlt : offset < p.size) (he : p.decodeAt offset = .error e) :
    e.offset = offset ∧ Unreadable (p.bytes.toList.drop offset) := by
  have hget : p.bytes[offset]? = some p.bytes[offset] := Array.getElem?_eq_getElem hlt
  have hdrop : p.bytes.toList.drop offset = p.bytes[offset] :: p.bytes.toList.drop (offset + 1) :=
    List.drop_eq_getElem_cons (by simpa [size] using hlt)
  unfold decodeAt at he
  simp only [hget] at he
  split at he
  · rename_i hnone
    cases he
    exact ⟨rfl, _, _, hdrop, Or.inl (List.getElem?_eq_none_iff.mp hnone)⟩
  · rename_i op hop
    split at he
    · rename_i hshort
      cases he
      refine ⟨rfl, _, _, hdrop, Or.inr ⟨op, Opcode.toByte_of_ofByte? hop, ?_⟩⟩
      rw [length_drop_toList]
      unfold Opcode.size at hshort
      omega
    · cases he

/-! ## Decoding one after the other -/

/-- Instructions one after the other, from an offset on. -/
def placeFrom (offset : Nat) : List Instruction → List Placed
  | [] => []
  | i :: is => ⟨i, offset⟩ :: placeFrom (offset + i.opcode.size) is

theorem toInstruction_placeFrom (offset : Nat) (is : List Instruction) :
    (placeFrom offset is).map Placed.toInstruction = is := by
  induction is generalizing offset with
  | nil => rfl
  | cons i is ih => rw [placeFrom, List.map_cons, ih]

/-- Instructions after others are placed after the sizes of these. -/
theorem placeFrom_append (offset : Nat) (is js : List Instruction) :
    placeFrom offset (is ++ js) =
      placeFrom offset is ++ placeFrom (offset + (is.map fun i => i.opcode.size).sum) js := by
  induction is generalizing offset with
  | nil => rfl
  | cons i is ih =>
    rw [List.cons_append, placeFrom, placeFrom, ih, List.cons_append, List.map_cons, List.sum_cons,
      Nat.add_assoc]

/-- In a row of placed instructions, each is where the sizes of those before it put it. -/
theorem placed_of_append {offset : Nat} {earlier later : List Placed} {d : Placed}
    (hplaced : earlier ++ d :: later =
      placeFrom offset ((earlier ++ d :: later).map Placed.toInstruction)) :
    earlier = placeFrom offset (earlier.map Placed.toInstruction) ∧
      d.offset = offset + ((earlier.map Placed.toInstruction).map fun i => i.opcode.size).sum := by
  rw [List.map_append, placeFrom_append] at hplaced
  have hlength : earlier.length =
      (placeFrom offset (earlier.map Placed.toInstruction)).length := by
    have hmap := congrArg List.length
      (toInstruction_placeFrom offset (earlier.map Placed.toInstruction))
    rw [List.length_map, List.length_map] at hmap
    exact hmap.symm
  obtain ⟨hearlier, hrest⟩ := List.append_inj hplaced hlength
  rw [List.map_cons, placeFrom, List.cons.injEq] at hrest
  exact ⟨hearlier, congrArg Placed.offset hrest.1⟩

/-- Encodings decode to their instructions. -/
theorem decodeFrom_of_encode {p : Program} {is : List Instruction} {offset : Nat}
    (his : ∀ i ∈ is, i.HasArity) (hdrop : p.bytes.toList.drop offset = is.flatMap Instruction.encode) :
    p.decodeFrom offset = (placeFrom offset is, none) := by
  induction is generalizing offset with
  | nil =>
    have hlen := congrArg List.length hdrop
    rw [length_drop_toList, List.flatMap_nil, List.length_nil] at hlen
    rw [decodeFrom, if_neg (by omega)]
    rfl
  | cons i is ih =>
    have hi : i.HasArity := his i List.mem_cons_self
    rw [List.flatMap_cons] at hdrop
    have hd := decodeAt_of_drop hi hdrop
    have hfits : offset + i.opcode.size ≤ p.size := by
      obtain ⟨_, _, _, hfits, _⟩ := decodeAt_eq_ok hd
      exact hfits
    have hpos := i.opcode.size_pos
    have hrest := ih (fun j hj => his j (List.mem_cons_of_mem _ hj))
      (show p.bytes.toList.drop (offset + i.opcode.size) = _ by
        rw [← List.drop_drop, hdrop, List.drop_left' (Instruction.length_encode hi)])
    rw [decodeFrom, if_pos (by omega)]
    simp only [hd, hrest]
    rfl

/-- The first instruction of a stream is at its start, and the others follow it. -/
theorem decodeFrom_eq_cons {p : Program} {offset : Nat} {d : Placed} {ds : List Placed}
    {e : Option CodeError} (hds : p.decodeFrom offset = (d :: ds, e)) :
    p.decodeAt offset = .ok d ∧ d.offset = offset ∧ p.decodeFrom d.next = (ds, e) := by
  rw [decodeFrom] at hds
  split at hds
  · split at hds
    · simp at hds
    · rename_i d' hd'
      simp only [Prod.mk.injEq, List.cons.injEq] at hds
      obtain ⟨⟨rfl, hrest⟩, herror⟩ := hds
      obtain ⟨_, _, _, _, hoffset, _⟩ := decodeAt_eq_ok hd'
      refine ⟨hd', hoffset, ?_⟩
      rw [Placed.next, hoffset, ← hrest, ← herror]
  · simp at hds

/-- Each instruction of a stream starts where the one before it ends, whether or not the last
one is followed by bytes that cannot be decoded. -/
theorem isChain_of_decodeFrom {p : Program} {offset : Nat} {ds : List Placed}
    {e : Option CodeError} (hds : p.decodeFrom offset = (ds, e)) :
    (∀ d ∈ ds.head?, d.offset = offset) ∧ ds.IsChain fun d d' => d'.offset = d.next := by
  induction ds generalizing offset with
  | nil => exact ⟨by simp, List.IsChain.nil⟩
  | cons d ds ih =>
    obtain ⟨_, hoffset, hrest⟩ := decodeFrom_eq_cons hds
    obtain ⟨hhead, hchain⟩ := ih hrest
    refine ⟨?_, List.isChain_cons.mpr ⟨hhead, hchain⟩⟩
    intro c hc
    cases hc
    exact hoffset

/-- The instructions of a stream are placed one after the other, and encode to it. -/
theorem encode_of_decodeFrom {p : Program} {offset : Nat} {ds : List Placed}
    (hds : p.decodeFrom offset = (ds, none)) :
    ds = placeFrom offset (ds.map Placed.toInstruction) ∧ (∀ d ∈ ds, d.HasArity) ∧
      p.bytes.toList.drop offset = (ds.map Placed.toInstruction).flatMap Instruction.encode := by
  induction ds generalizing offset with
  | nil =>
    rw [decodeFrom] at hds
    split at hds
    · split at hds <;> simp at hds
    · rename_i hge
      refine ⟨rfl, by simp, ?_⟩
      rw [List.drop_eq_nil_of_le (by simpa [size] using hge)]
      rfl
  | cons d ds ih =>
    obtain ⟨hd, hoffset, hrest⟩ := decodeFrom_eq_cons hds
    obtain ⟨hplaced, harity, hbytes⟩ := ih hrest
    refine ⟨?_, ?_, ?_⟩
    · rw [List.map_cons, placeFrom, ← hoffset, ← Placed.next, ← hplaced]
    · intro e he
      rcases List.mem_cons.mp he with rfl | he
      · exact hasArity_of_decodeAt hd
      · exact harity e he
    · rw [List.map_cons, List.flatMap_cons, ← hbytes, drop_of_decodeAt hd]

/-- The instructions before one that cannot be decoded are placed one after the other, and
encode to the bytes before it. -/
theorem encode_of_decodeFrom_error {p : Program} {offset : Nat} {ds : List Placed} {e : CodeError}
    (hds : p.decodeFrom offset = (ds, some e)) :
    (∀ d ∈ ds, d.HasArity) ∧ ∃ stop,
      stop = offset + ((ds.map Placed.toInstruction).flatMap Instruction.encode).length ∧
      stop < p.size ∧ p.decodeAt stop = .error e ∧
      p.bytes.toList.drop offset =
        (ds.map Placed.toInstruction).flatMap Instruction.encode ++ p.bytes.toList.drop stop := by
  induction ds generalizing offset with
  | nil =>
    rw [decodeFrom] at hds
    split at hds
    · rename_i hlt
      split at hds
      · rename_i he
        cases hds
        exact ⟨by simp, offset, rfl, hlt, he, rfl⟩
      · simp at hds
    · simp at hds
  | cons d ds ih =>
    obtain ⟨hd, hoffset, hrest⟩ := decodeFrom_eq_cons hds
    obtain ⟨harity, stop, hstop, hlt, he, hbytes⟩ := ih hrest
    have hdArity : d.HasArity := hasArity_of_decodeAt hd
    refine ⟨?_, stop, ?_, hlt, he, ?_⟩
    · rw [List.forall_mem_cons]
      exact ⟨hdArity, harity⟩
    · rw [hstop, List.map_cons, List.flatMap_cons, List.length_append,
        Instruction.length_encode hdArity, Placed.next, hoffset, Nat.add_assoc]
    · rw [List.map_cons, List.flatMap_cons, List.append_assoc, ← hbytes, drop_of_decodeAt hd]

/-- A program is decoded exactly when there is no error on the way. -/
theorem decode_eq_ok_iff {p : Program} {ds : List Placed} :
    p.decode = .ok ds ↔ p.decodeFrom codeStart = (ds, none) := by
  unfold decode
  split
  · rename_i ds' hds'
    simp [hds']
  · rename_i _ _ hds'
    simp [hds']

/-- A program is not decoded exactly when there is one. -/
theorem decode_eq_error_iff {p : Program} {e : CodeError} :
    p.decode = .error e ↔ ∃ ds, p.decodeFrom codeStart = (ds, some e) := by
  unfold decode
  split
  · rename_i ds' hds'
    simp [hds']
  · rename_i ds' e' hds'
    simp [hds']

/-! ## Where the instructions are -/

/-- No instruction is placed before the first offset. -/
theorem le_of_mem_placeFrom {offset : Nat} {is : List Instruction} :
    ∀ d ∈ placeFrom offset is, offset ≤ d.offset := by
  induction is generalizing offset with
  | nil => simp [placeFrom]
  | cons i is ih =>
    intro d hd
    rcases List.mem_cons.mp hd with rfl | hd
    · exact Nat.le_refl _
    · exact Nat.le_trans (Nat.le_add_right _ _) (ih d hd)

/-- Later instructions are at greater offsets. -/
theorem pairwise_placeFrom (offset : Nat) (is : List Instruction) :
    (placeFrom offset is).Pairwise fun d e => d.offset < e.offset := by
  induction is generalizing offset with
  | nil => exact List.Pairwise.nil
  | cons i is ih =>
    refine List.pairwise_cons.mpr ⟨?_, ih _⟩
    intro d hd
    have hle := le_of_mem_placeFrom d hd
    have hpos := i.opcode.size_pos
    exact Nat.lt_of_lt_of_le (Nat.lt_add_of_pos_right hpos) hle

/-- The first of the instructions is where they start, if there is any. -/
theorem start_of_decodeFrom {p : Program} {offset : Nat} {ds : List Placed}
    (hds : p.decodeFrom offset = (ds, none)) (hle : offset ≤ p.size) :
    offset = p.size ∨ ∃ d ∈ ds, d.offset = offset := by
  obtain ⟨hplaced, _, hbytes⟩ := encode_of_decodeFrom hds
  cases ds with
  | nil =>
    have hlen := congrArg List.length hbytes
    rw [length_drop_toList, List.map_nil, List.flatMap_nil, List.length_nil] at hlen
    exact Or.inl (by omega)
  | cons d ds =>
    refine Or.inr ⟨d, List.mem_cons_self, ?_⟩
    rw [List.map_cons, placeFrom, List.cons.injEq] at hplaced
    rw [hplaced.1]

/-- After each instruction comes the next one, or the end of the program. -/
theorem next_of_decodeFrom {p : Program} {offset : Nat} {ds : List Placed}
    (hds : p.decodeFrom offset = (ds, none)) :
    ∀ d ∈ ds, d.next = p.size ∨ ∃ e ∈ ds, e.offset = d.next := by
  induction ds generalizing offset with
  | nil => simp
  | cons d ds ih =>
    obtain ⟨hd, hoffset, hrest⟩ := decodeFrom_eq_cons hds
    obtain ⟨_, _, _, hfits, _, _⟩ := decodeAt_eq_ok hd
    intro c hc
    have hlift : (c.next = p.size ∨ ∃ e ∈ ds, e.offset = c.next) →
        c.next = p.size ∨ ∃ e ∈ d :: ds, e.offset = c.next :=
      Or.imp_right fun ⟨e, he, heq⟩ => ⟨e, List.mem_cons_of_mem _ he, heq⟩
    rcases List.mem_cons.mp hc with rfl | hc
    · exact hlift (start_of_decodeFrom hrest (by rw [Placed.next, hoffset]; exact hfits))
    · exact hlift (ih hrest c hc)

/-- Each instruction of a program can be decoded at its own offset. -/
theorem decodeAt_of_mem_decodeFrom {p : Program} {offset : Nat} {ds : List Placed}
    {e : Option CodeError} (hds : p.decodeFrom offset = (ds, e)) :
    ∀ d ∈ ds, p.decodeAt d.offset = .ok d := by
  induction ds generalizing offset with
  | nil => simp
  | cons d ds ih =>
    obtain ⟨hd, hoffset, hrest⟩ := decodeFrom_eq_cons hds
    intro c hc
    rcases List.mem_cons.mp hc with rfl | hc
    · rwa [hoffset]
    · exact ih hrest c hc

/-- An instruction of the decoded stream starts at the offset. -/
def Boundary (p : Program) (offset : Nat) : Prop :=
  ∃ ds, p.decode = .ok ds ∧ ∃ d ∈ ds, d.offset = offset

/-- Execution may continue at the offset: there is an instruction, or the program ends. -/
def Landing (p : Program) (offset : Nat) : Prop := offset = p.size ∨ p.Boundary offset

section Decoded

variable {p : Program} {ds : List Placed} (hds : p.decode = .ok ds)
include hds

/-- The offsets of instructions are the boundaries of the program. -/
theorem boundary_iff {offset : Nat} : p.Boundary offset ↔ ∃ d ∈ ds, d.offset = offset := by
  constructor
  · rintro ⟨ds', hds', hd⟩
    rw [hds] at hds'
    cases hds'
    exact hd
  · exact fun hd => ⟨ds, hds, hd⟩

/-- The instructions of a program are placed one after the other from the start of the code. -/
theorem placed_of_decode : ds = placeFrom codeStart (ds.map Placed.toInstruction) :=
  (encode_of_decodeFrom (decode_eq_ok_iff.mp hds)).1

/-- The instructions of a program are in the order of their offsets. -/
theorem pairwise_of_decode : ds.Pairwise fun d e => d.offset < e.offset := by
  rw [placed_of_decode hds]
  exact pairwise_placeFrom _ _

theorem codeStart_le_of_mem {d : Placed} (hd : d ∈ ds) : codeStart ≤ d.offset := by
  rw [placed_of_decode hds] at hd
  exact le_of_mem_placeFrom d hd

/-- Execution may start at the start of the code. -/
theorem landing_codeStart : p.Landing codeStart :=
  (start_of_decodeFrom (decode_eq_ok_iff.mp hds) p.codeStart_le_size).imp_right
    (boundary_iff hds).mpr

/-- Execution may go on after each instruction. -/
theorem landing_next {d : Placed} (hd : d ∈ ds) : p.Landing d.next :=
  (next_of_decodeFrom (decode_eq_ok_iff.mp hds) d hd).imp_right (boundary_iff hds).mpr

/-- The instructions of the stream are those decoded at their offsets. -/
theorem decodeAt_of_mem {d : Placed} (hd : d ∈ ds) : p.decodeAt d.offset = .ok d :=
  decodeAt_of_mem_decodeFrom (decode_eq_ok_iff.mp hds) d hd

theorem hasArity_of_mem {d : Placed} (hd : d ∈ ds) : d.HasArity :=
  hasArity_of_decodeAt (decodeAt_of_mem hds hd)

/-- No instruction goes beyond the end of its program. -/
theorem next_le_size {d : Placed} (hd : d ∈ ds) : d.next ≤ p.size := by
  rcases decodeAt_eq_ok (decodeAt_of_mem hds hd) with ⟨_, _, _, hfits, _⟩
  exact hfits

/-- A program is determined by its instructions. -/
theorem ofCode_of_decode :
    p = ofCode ((ds.map Placed.toInstruction).flatMap Instruction.encode) := by
  have hcode := (encode_of_decodeFrom (decode_eq_ok_iff.mp hds)).2.2
  have hbytes : p.bytes.toList = signature ++ p.bytes.toList.drop codeStart := by
    rw [← p.signed, List.take_append_drop]
  rw [hcode] at hbytes
  apply eq_of_bytes
  calc p.bytes = p.bytes.toList.toArray := Array.toArray_toList.symm
    _ = _ := congrArg List.toArray hbytes

end Decoded

theorem size_ofCode (code : List UInt8) : (ofCode code).size = codeStart + code.length := by
  rw [size, ofCode, List.size_toArray, List.length_append, codeStart]

theorem drop_ofCode (code : List UInt8) : (ofCode code).bytes.toList.drop codeStart = code :=
  List.drop_left' rfl

/-- Instructions with all their operands are decoded from their encodings. -/
theorem decode_ofCode {is : List Instruction} (his : ∀ i ∈ is, i.HasArity) :
    (ofCode (is.flatMap Instruction.encode)).decode = .ok (placeFrom codeStart is) :=
  decode_eq_ok_iff.mpr (decodeFrom_of_encode his rfl)

/-- Any bytes are the encodings of the instructions that are decoded from them, and of nothing
more unless an instruction cannot be read after these. -/
theorem encode_of_decodeFrom_ofCode {code : List UInt8} {ds : List Placed} {e : Option CodeError}
    (hds : (ofCode code).decodeFrom codeStart = (ds, e)) :
    (∀ d ∈ ds, d.HasArity) ∧ ∃ rest,
      code = (ds.map Placed.toInstruction).flatMap Instruction.encode ++ rest ∧
      (e = none ↔ rest = []) ∧
      ∀ cause, e = some cause → Unreadable rest ∧
        cause.offset =
          codeStart + ((ds.map Placed.toInstruction).flatMap Instruction.encode).length := by
  have hdrop := drop_ofCode code
  cases e with
  | none =>
    obtain ⟨_, harity, hbytes⟩ := encode_of_decodeFrom hds
    refine ⟨harity, [], ?_, by simp, by simp⟩
    rw [List.append_nil]
    exact hdrop.symm.trans hbytes
  | some cause =>
    obtain ⟨harity, stop, hstop, hlt, hat, hbytes⟩ := encode_of_decodeFrom_error hds
    obtain ⟨hoffset, hunreadable⟩ := unreadable_of_decodeAt hlt hat
    refine ⟨harity, _, hdrop.symm.trans hbytes, ?_, ?_⟩
    · obtain ⟨byte, rest, hcons, _⟩ := hunreadable
      simp [hcons]
    · intro cause' hcause
      cases hcause
      exact ⟨hunreadable, hoffset.trans hstop⟩

/-- Decoding and encoding are inverse to each other.  Whatever the bytes of a stream are, they
decode to instructions that follow one another from its start, and to one error at most.  The
encodings of the instructions are all bytes if there is no error; otherwise the error is at the
offset just past them, and the bytes from there on start with no instruction.  Instructions with
all their operands are decoded from their encodings, and no error with them. -/
theorem decode_encode_inverse :
    (∀ code : List UInt8, ∃ (ds : List Placed) (e : Option CodeError) (rest : List UInt8),
      (ofCode code).decodeFrom codeStart = (ds, e) ∧
      (∀ d ∈ ds.head?, d.offset = 6) ∧ (ds.IsChain fun d d' => d'.offset = d.next) ∧
      (∀ d ∈ ds, d.HasArity) ∧
      code = (ds.map Placed.toInstruction).flatMap Instruction.encode ++ rest ∧
      (e = none ↔ rest = []) ∧
      ∀ cause, e = some cause → Unreadable rest ∧
        (Error.code cause).offset? =
          some (6 + ((ds.map Placed.toInstruction).flatMap Instruction.encode).length)) ∧
    ∀ is : List Instruction, (∀ i ∈ is, i.HasArity) →
      ∃ ds, (ofCode (is.flatMap Instruction.encode)).decodeFrom codeStart = (ds, none) ∧
        ds.map Placed.toInstruction = is := by
  refine ⟨?_, ?_⟩
  · intro code
    obtain ⟨⟨ds, e⟩, hds⟩ : ∃ x, (ofCode code).decodeFrom codeStart = x := ⟨_, rfl⟩
    obtain ⟨hhead, hchain⟩ := isChain_of_decodeFrom hds
    obtain ⟨harity, rest, hcode, hend, herror⟩ := encode_of_decodeFrom_ofCode hds
    refine ⟨ds, e, rest, hds, hhead, hchain, harity, hcode, hend, ?_⟩
    intro cause hcause
    obtain ⟨hunreadable, hoffset⟩ := herror cause hcause
    exact ⟨hunreadable, congrArg some hoffset⟩
  · intro is his
    refine ⟨placeFrom codeStart is, ?_, toInstruction_placeFrom codeStart is⟩
    exact decode_eq_ok_iff.mp (decode_ofCode his)

/-- A push of a NaN with a payload, and the end of the program. -/
def payloadExample : List Instruction :=
  [⟨.push, [Double.zero, ⟨0x7ff8000000000001⟩]⟩, ⟨.stop, []⟩]

/-- The same, and a pop whose operands are cut short. -/
def cutShortExample : List UInt8 := payloadExample.flatMap Instruction.encode ++ [2, 0]

/-- Instructions with unusual doubles are decoded as they were encoded, and a program that is cut
short fails where its last instruction starts. -/
theorem decode_encode_inverse_examples :
    ((∀ i ∈ payloadExample, i.HasArity) ∧
      ∃ ds, (ofCode (payloadExample.flatMap Instruction.encode)).decodeFrom codeStart = (ds, none) ∧
        ds.map Placed.toInstruction = payloadExample) ∧
    ∃ ds cause, (ofCode cutShortExample).decodeFrom codeStart = (ds, some cause) ∧
      (Error.code cause).offset? =
        some (6 + ((ds.map Placed.toInstruction).flatMap Instruction.encode).length) := by
  have harity : ∀ i ∈ payloadExample, i.HasArity := by
    unfold Instruction.HasArity
    decide
  have herror : ((ofCode cutShortExample).decodeFrom codeStart).2 =
      some (.truncated "POP" 24 17 2) := by decide +kernel
  obtain ⟨ds, e, rest, hds, _, _, _, _, _, hplace⟩ := decode_encode_inverse.1 cutShortExample
  rw [hds] at herror
  refine ⟨⟨harity, decode_encode_inverse.2 _ harity⟩, ds, _, ?_, (hplace _ herror).2⟩
  rw [hds]
  exact congrArg (Prod.mk ds) herror

end Program

end StackMachine
