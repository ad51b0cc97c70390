import StackMachine.Text.Utf8

/-!
# Texts and their bytes

Bytes are read as text exactly if they are the UTF-8 encoding of one, character by character.
A line feed is one byte that occurs in the encoding of no other character, so a text may be
taken apart at its line feeds before or after it is encoded.

Main results:

- Theorem `ofBytes?_eq_some_iff`: which bytes are read as which text.
- Theorem `lineFeed_mem_encode`: the byte of a line feed stands for a line feed.
-/

namespace StackMachine.Text

/-- The UTF-8 encoding of some characters. -/
def encode (cs : List Char) : List UInt8 := cs.flatMap String.utf8EncodeChar

/-- The byte that encodes a line feed. -/
def lineFeed : UInt8 := 10

theorem encode_append (as bs : List Char) : encode (as ++ bs) = encode as ++ encode bs :=
  List.flatMap_append

/-- Bytes are read as the text whose encoding they are. -/
theorem ofBytes?_eq_some_iff {bytes : List UInt8} {text : String} :
    ofBytes? bytes = some text ↔ bytes = encode text.toList := by
  have hencode : text.toByteArray = (encode text.toList).toByteArray :=
    String.utf8Encode_toList.symm
  rw [ofBytes?, String.fromUTF8?, ← List.toByteArray_inj, ← hencode]
  constructor
  · intro htext
    split at htext
    · cases htext
      rfl
    · cases htext
  · intro hbytes
    have hvalid : bytes.toByteArray.IsValidUTF8 := hbytes ▸ text.isValidUTF8
    rw [dif_pos hvalid, Option.some_inj, ← String.toByteArray_inj, ← hbytes]
    rfl

/-- A text is read back from its bytes. -/
theorem ofBytes?_encode (cs : List Char) : ofBytes? (encode cs) = some (String.ofList cs) := by
  rw [ofBytes?_eq_some_iff, String.toList_ofList]

/-- No character but the line feed has its byte in its encoding. -/
theorem lineFeed_mem_encodeChar {c : Char} (hc : lineFeed ∈ String.utf8EncodeChar c) :
    c = '\n' := by
  have hbyte {n : Nat} (hn : n < 256) (heq : lineFeed = UInt8.ofNat n) : n = 10 := by
    have htoNat := congrArg UInt8.toNat heq
    rw [UInt8.toNat_ofNat_of_lt' hn] at htoNat
    exact htoNat.symm
  -- The bytes of a character that takes several of them are 128 or more.
  have hseveral (ns : List Nat) (hns : ∀ n ∈ ns, 128 ≤ n ∧ n < 256) :
      lineFeed ∉ ns.map UInt8.ofNat := by
    intro hmem
    obtain ⟨n, hn, heq⟩ := List.mem_map.mp hmem
    have hten := hbyte (hns n hn).2 heq.symm
    have hlow := (hns n hn).1
    omega
  unfold String.utf8EncodeChar at hc
  dsimp only at hc
  split at hc
  · have hval : c.val.toNat = 10 := hbyte (by omega) (List.mem_singleton.mp hc)
    exact Char.ext (UInt32.toNat_inj.mp hval)
  · split at hc
    · exact absurd hc (hseveral [_, _] (by simp; omega))
    · split at hc
      · exact absurd hc (hseveral [_, _, _] (by simp; omega))
      · exact absurd hc (hseveral [_, _, _, _] (by simp; omega))

/-- The byte of a line feed stands for a line feed. -/
theorem lineFeed_mem_encode {cs : List Char} (hcs : lineFeed ∈ encode cs) : '\n' ∈ cs := by
  obtain ⟨c, hc, hmem⟩ := List.mem_flatMap.mp hcs
  rwa [← lineFeed_mem_encodeChar hmem]

end StackMachine.Text
