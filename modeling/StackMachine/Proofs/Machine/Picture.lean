import Mathlib.Algebra.Order.Floor.Semifield
import Mathlib.Data.Rat.Floor
import StackMachine.Proofs.Double.Bytes
import StackMachine.Proofs.Double.Value
import StackMachine.Proofs.Machine.Safety

/-!
# Pictures

A picture file consists of a header and the data.  The fields of the header are numbers of two
or four bytes; each of them is read back as it was written, as long as it fits, so that nothing
about a picture is lost.  An instruction that draws writes such a file with the first memory
cells as its data, or it writes nothing.

Main definitions:

- `Bitmap.field`, a number in a file;
- `Bitmap.Shows`, the picture of the given dimensions and data as a file;
- `Double.byteOf`, the byte that a memory cell is drawn as.

Main results:

- Theorem `Bitmap.encode_eq_error_iff`: which pictures there is no file for.
- Theorem `Bitmap.shows_of_encode`: what the file of a picture holds.
- Theorem `Double.truncate_maxByte`: memory cells are clamped to the range of a byte.
- Theorem `Machine.step_draw`: what an instruction that draws does.
- Theorem `Machine.pictures_exact`: every picture is recovered from its file, also those drawn.
-/

namespace StackMachine

/-! ## Files -/

namespace Bitmap

/-- The number in so many bytes of a file from an offset on, the lowest first. -/
def field (file : List UInt8) (offset size : Nat) : Nat :=
  Double.valueOf ((file.drop offset).take size)

/-- A file is the picture of the given dimensions with the given data. -/
structure Shows (file : List UInt8) (width height : Nat) (data : List UInt8) : Prop where
  length_eq : file.length = 26 + data.length
  signature : (file.take 2).map (fun b => Char.ofNat b.toNat) = ['B', 'M']
  fileSize : field file 2 4 = file.length
  reserved : field file 6 4 = 0
  dataOffset : field file 10 4 = 26
  headerSize : field file 14 4 = 12
  width_eq : field file 18 2 = width
  height_eq : field file 20 2 = height
  planes : field file 22 2 = 1
  depth : field file 24 2 = 8 * data.length / (width * height)
  data_eq : file.drop 26 = data

/-- The dimensions and the data of a picture file. -/
def contents (file : List UInt8) : Nat × Nat × List UInt8 :=
  (field file 18 2, field file 20 2, file.drop 26)

/-- There is no file for a picture of the given dimensions and amount of data. -/
def Unfit (width height length : Nat) : Prop :=
  width = 0 ∨ 65535 < width ∨ height = 0 ∨ 65535 < height ∨ 65535 < 8 * length / (width * height)

/-- A number is read back from its bytes, if it fits into them. -/
theorem valueOf_littleEndian {size n : Nat} (hn : n < 256 ^ size) :
    Double.valueOf (littleEndian size n) = n := by
  induction size generalizing n with
  | zero =>
    rw [pow_zero, Nat.lt_one_iff] at hn
    rw [hn]
    rfl
  | succ size ih =>
    have hrest : n / 256 < 256 ^ size := by
      rw [pow_succ] at hn
      exact Nat.div_lt_of_lt_mul (by rwa [Nat.mul_comm])
    have hbyte : n.toUInt8.toNat = n % 256 := rfl
    rw [littleEndian, Double.valueOf, ih hrest, hbyte]
    exact Nat.mod_add_div n 256

/-- Dividing by the width and then by the height is dividing by the number of pixels. -/
theorem bitsPerPixel_eq (width height length : Nat) :
    bitsPerPixel width height length = 8 * length / (width * height) := by
  rw [bitsPerPixel, Nat.div_div_eq_div_mul, Nat.mul_comm length]

/-- The file of a picture, if it fits. -/
def fileOf (width height : Nat) (data : List UInt8) : List UInt8 :=
  [0x42, 0x4d] ++ littleEndian 4 (headerSize + data.length) ++ littleEndian 4 0 ++
    littleEndian 4 headerSize ++ littleEndian 4 coreHeaderSize ++
    littleEndian 2 width ++ littleEndian 2 height ++ littleEndian 2 1 ++
    littleEndian 2 (8 * data.length / (width * height)) ++ data

/-- A picture that fits is encoded, and any other is refused. -/
theorem encode_cases (width height : Nat) (data : List UInt8) :
    (∃ reason, encode width height data = .error (.invalidBitmap reason)) ∧
        Unfit width height data.length ∨
      encode width height data = .ok (fileOf width height data) ∧
        ¬ Unfit width height data.length := by
  unfold encode Unfit
  simp only [bitsPerPixel_eq, maxField]
  split_ifs with hwidth hheight hempty hdepth
  · exact .inl ⟨⟨_, rfl⟩, by omega⟩
  · exact .inl ⟨⟨_, rfl⟩, by omega⟩
  · exact .inl ⟨⟨_, rfl⟩, by omega⟩
  · exact .inl ⟨⟨_, rfl⟩, by omega⟩
  · exact .inr ⟨rfl, by omega⟩

/-- A number that is written at an offset is read there, if it fits. -/
theorem field_eq {file : List UInt8} {offset size n : Nat} (hn : n < 256 ^ size)
    (hbytes : (file.drop offset).take size = littleEndian size n) : field file offset size = n := by
  rw [field, hbytes, valueOf_littleEndian hn]

/-- Every field of the file of a picture is read back as it was written, if it fits. -/
theorem shows_fileOf {width height : Nat} {data : List UInt8}
    (hfits : ¬ Unfit width height data.length) (hlength : data.length < 2 ^ 32 - 26) :
    Shows (fileOf width height data) width height data := by
  have hsize : (fileOf width height data).length = headerSize + data.length := by
    simp [fileOf, littleEndian, headerSize]
    omega
  unfold Unfit at hfits
  have hdepth : 8 * data.length / (width * height) < 256 ^ 2 := by omega
  exact {
    length_eq := hsize
    signature := rfl
    fileSize := by
      rw [hsize]
      exact field_eq (by unfold headerSize; omega) rfl
    reserved := field_eq (by decide) rfl
    dataOffset := field_eq (by decide) rfl
    headerSize := field_eq (by decide) rfl
    width_eq := field_eq (by omega) rfl
    height_eq := field_eq (by omega) rfl
    planes := field_eq (by decide) rfl
    depth := field_eq hdepth rfl
    data_eq := rfl }

/-- Which pictures there is no file for. -/
theorem encode_eq_error_iff {width height : Nat} {data : List UInt8} :
    (∃ e, encode width height data = .error e) ↔ Unfit width height data.length := by
  rcases encode_cases width height data with ⟨⟨reason, hencode⟩, hunfit⟩ | ⟨hencode, hfits⟩
  · exact ⟨fun _ => hunfit, fun _ => ⟨_, hencode⟩⟩
  · rw [hencode]
    refine ⟨?_, fun hunfit => absurd hunfit hfits⟩
    rintro ⟨_, herror⟩
    cases herror

/-- What the file of a picture holds, if its size fits its field. -/
theorem shows_of_encode {width height : Nat} {data file : List UInt8}
    (hlength : data.length < 2 ^ 32 - 26) (hfile : encode width height data = .ok file) :
    Shows file width height data := by
  rcases encode_cases width height data with ⟨⟨reason, hencode⟩, _⟩ | ⟨hencode, hfits⟩
  · rw [hencode] at hfile
    cases hfile
  · rw [hencode] at hfile
    cases hfile
    exact shows_fileOf hfits hlength

/-- A picture is recovered from its file. -/
theorem Shows.contents_eq {file : List UInt8} {width height : Nat} {data : List UInt8}
    (h : Shows file width height data) : contents file = (width, height, data) := by
  rw [contents, h.width_eq, h.height_eq, h.data_eq]

end Bitmap

/-! ## Bytes of memory cells -/

namespace Double

/-- The byte that a double is converted to: its integer part, within the range of a byte, and
zero if it is not a number. -/
def byteOf (v : Double) : UInt8 :=
  if v.isNaN then 0
  else if v.isInfinite then (if v.negative then 0 else 255)
  else (min 255 ⌊v.value⌋₊).toUInt8

/-- A finite number is rounded down, and clamped between zero and the limit. -/
theorem truncate_of_isFinite {v : Double} (hfinite : v.isFinite = true) (limit : Nat) :
    v.truncate limit = min limit ⌊v.value⌋₊ := by
  have hnumber : v.isNaN = false := by
    simp only [isFinite, isNaN, decide_eq_true_eq, decide_eq_false_iff_not] at hfinite ⊢
    omega
  rw [truncate, value_eq, hnumber, Bool.false_or]
  cases v.negative with
  | true =>
    have hneg : -(v.units : ℚ) / oneUnits ≤ 0 :=
      div_nonpos_of_nonpos_of_nonneg (neg_nonpos.mpr (Nat.cast_nonneg _)) (Nat.cast_nonneg _)
    rw [if_pos rfl, if_pos rfl, Nat.floor_of_nonpos hneg, Nat.min_zero]
  | false =>
    rw [if_neg (by decide), if_neg (by decide), Nat.floor_div_eq_div]

theorem le_unitsOf_infinityWord : 255 ≤ unitsOf infinityWord / oneUnits := by decide +kernel

/-- Memory cells are clamped to the range of a byte. -/
theorem truncate_maxByte (v : Double) : (v.truncate Machine.maxByte).toUInt8 = v.byteOf := by
  unfold byteOf
  split_ifs with hnan hinfinite hneg
  · rw [truncate, hnan]
    rfl
  · rw [truncate, hneg, Bool.or_true]
    rfl
  · have hmagnitude : v.magnitude = infinityWord := by simpa [isInfinite] using hinfinite
    simp only [Bool.not_eq_true] at hnan hneg
    rw [truncate, hnan, hneg, units, hmagnitude, Bool.or_false, if_neg (by decide),
      Machine.maxByte, Nat.min_eq_left le_unitsOf_infinityWord]
    rfl
  · have hfinite : v.isFinite = true := by
      by_contra hother
      rcases isFinite_eq_false_iff.mp (Bool.eq_false_iff.mpr hother) with h | h
      · exact hnan h
      · exact hinfinite h
    rw [truncate_of_isFinite hfinite, Machine.maxByte]

end Double

/-! ## Drawing -/

/-- A canvas of a willing host takes every picture. -/
theorem Canvas.write_of_none {c : Canvas} (hrefusal : c.refusal = none) (picture : List UInt8) :
    c.write picture = .ok { c with picture := some picture } := by
  rw [Canvas.write, hrefusal]

/-- A canvas of an unwilling host takes none, and tells why. -/
theorem Canvas.write_of_some {c : Canvas} {reason : String} (hrefusal : c.refusal = some reason)
    (picture : List UInt8) : c.write picture = .error (.io s!"{c.path}: {reason}") := by
  rw [Canvas.write, hrefusal]

namespace Machine

/-- The bytes of the first memory cells. -/
def drawn (m : Machine) (count : Nat) : List UInt8 := (m.ram.cells.toList.take count).map Double.byteOf

/-- As many bytes are drawn as cells are asked for. -/
theorem length_drawn (m : Machine) {count : Nat} (hcount : count < ramSize) :
    (m.drawn count).length = count := by
  have hcells : m.ram.cells.toList.length = ramSize := Vector.length_toList ..
  rw [drawn, List.length_map, List.length_take, hcells]
  omega

/-- Drawing encodes the first memory cells and writes the file, unless the picture does not fit
or the file is refused. -/
theorem leads_execDraw {m : Machine} {width height length : Double} {w h n : Nat}
    {done : Unit → Machine → Prop} {stopped : Interrupt → Machine → Prop}
    (hwidth : width.index? = some w) (hheight : height.index? = some h)
    (hlength : length.index? = some n) (hn : n < ramSize)
    (hunfit : Bitmap.Unfit w h n → ∀ reason,
      stopped (.failure (.host (.invalidBitmap reason))) m)
    (hrefused : ∀ reason, m.canvas.refusal = some reason →
      stopped (.failure (.host (.io s!"{m.canvas.path}: {reason}"))) m)
    (hdone : ¬ Bitmap.Unfit w h n → m.canvas.refusal = none → ∀ notes,
      done () { m with
        canvas := { m.canvas with picture := some (Bitmap.fileOf w h (m.drawn n)) }, notes }) :
    Leads (execDraw width height length) m done stopped := by
  have hcells : m.ram.first? n = some (m.ram.cells.toList.take n) := if_pos hn.le
  have hdata : (m.ram.cells.toList.take n).map (fun v => (v.truncate maxByte).toUInt8) =
      m.drawn n := List.map_congr_left fun v _ => v.truncate_maxByte
  rw [execDraw, leads_get_bind]
  simp only [hwidth, hheight, hlength, Option.bind_some, hcells, hdata]
  have hcases := Bitmap.encode_cases w h (m.drawn n)
  rw [length_drawn m hn] at hcases
  rcases hcases with ⟨⟨reason, hencode⟩, hbad⟩ | ⟨hencode, hfits⟩
  · simp only [hencode, Except.bind, leads_fail]
    exact hunfit hbad reason
  · cases hrefusal : m.canvas.refusal with
    | none =>
      simp only [hencode, Except.bind, Canvas.write_of_none hrefusal]
      exact hdone hfits hrefusal _
    | some reason =>
      simp only [hencode, Except.bind, Canvas.write_of_some hrefusal]
      exact hrefused reason hrefusal

/-- A verified program draws with dimensions and a length that are indices, the length within
memory. -/
theorem indices_of_draw {p : Program} (hp : p.verify = .ok ()) {m : Machine} (hm : Safe p m)
    (hrunning : m.isRunning = true) {d : Placed} (hdecode : p.decodeAt m.ip = .ok d)
    (hop : d.opcode = .draw) :
    ∃ w h n, (d.operand 0).index? = some w ∧ (d.operand 1).index? = some h ∧
      (d.operand 2).index? = some n ∧ n < ramSize := by
  obtain ⟨ds, hds, hadmits⟩ := Program.verify_eq_ok.mp hp
  obtain ⟨e, he, _, hat⟩ := hm.decodeAt_ip hds hrunning
  rw [hm.program, hdecode] at hat
  cases hat
  have hoperands := hadmits d he
  rw [hop] at hoperands
  obtain ⟨w, hwidth⟩ := hoperands (.count, 0) (by decide)
  obtain ⟨h, hheight⟩ := hoperands (.count, 1) (by decide)
  obtain ⟨n, hlength, hn⟩ := hoperands (.length, 2) (by decide)
  exact ⟨w, h, n, hwidth, hheight, hlength, hn⟩

/-- An instruction of a verified program that draws either fails and writes nothing, or writes
the file of the first memory cells. -/
theorem step_draw {p : Program} (hp : p.verify = .ok ()) {m : Machine} (hm : Safe p m)
    (hrunning : m.isRunning = true) {d : Placed} (hdecode : p.decodeAt m.ip = .ok d)
    (hop : d.opcode = .draw) :
    ∃ w h n, (d.operand 0).Denotes w ∧ (d.operand 1).Denotes h ∧ (d.operand 2).Denotes n ∧
      n < ramSize ∧
      ((∃ e m', step m = .error (.failure e) m' ∧ m'.canvas = m.canvas ∧
          (m.canvas.refusal = none → Bitmap.Unfit w h n)) ∨
        ∃ file m', step m = .ok () m' ∧ m'.canvas = { m.canvas with picture := some file } ∧
          ¬ Bitmap.Unfit w h n ∧ Bitmap.Shows file w h (m.drawn n)) := by
  obtain ⟨w, h, n, hwidth, hheight, hlength, hn⟩ := indices_of_draw hp hm hrunning hdecode hop
  refine ⟨w, h, n, Double.index?_eq_some_iff.mp hwidth, Double.index?_eq_some_iff.mp hheight,
    Double.index?_eq_some_iff.mp hlength, hn, ?_⟩
  have hlead : Leads step m
      (fun _ m' => m'.canvas =
          { m.canvas with picture := some (Bitmap.fileOf w h (m.drawn n)) } ∧
        ¬ Bitmap.Unfit w h n)
      (fun i m' => (∃ e, i = .failure e) ∧ m'.canvas = m.canvas ∧
        (m.canvas.refusal = none → Bitmap.Unfit w h n)) := by
    rw [Leads, step_of_decodeAt (hm.program ▸ hdecode), exec]
    simp only [hop]
    refine leads_execDraw hwidth hheight hlength hn ?_ ?_ ?_
    · exact fun hunfit _ => ⟨⟨_, rfl⟩, rfl, fun _ => hunfit⟩
    · intro reason hrefusal
      refine ⟨⟨_, rfl⟩, rfl, fun hnone => ?_⟩
      rw [show m.canvas.refusal = some reason from hrefusal] at hnone
      cases hnone
    · exact fun hfits _ _ => ⟨rfl, hfits⟩
  unfold Leads at hlead
  cases hstep : step m with
  | ok _ m' =>
    rw [hstep] at hlead
    obtain ⟨hcanvas, hfits⟩ := hlead
    have hcount : (m.drawn n).length = n := length_drawn m hn
    refine .inr ⟨_, m', rfl, hcanvas, hfits, Bitmap.shows_fileOf ?_ ?_⟩
    · rwa [hcount]
    · rw [hcount]
      exact hn.trans (by decide)
  | error i m' =>
    rw [hstep] at hlead
    obtain ⟨⟨e, rfl⟩, hcanvas, hunfit⟩ := hlead
    exact .inl ⟨e, m', rfl, hcanvas, hunfit⟩

/-- Pictures are written as they are.  Of the pictures whose size fits its field, exactly those
that do not fit have no file, and every other one is recovered from its file.  After any runs of
a verified program an instruction that draws fails and leaves the file alone, for want of a
picture that fits if the host takes the file, or it writes the file of the first memory cells. -/
theorem pictures_exact :
    (∀ (width height : Nat) (data : List UInt8), data.length < 2 ^ 32 - 26 →
      ((∃ e, Bitmap.encode width height data = .error e) ↔
        Bitmap.Unfit width height data.length) ∧
      ∀ file, Bitmap.encode width height data = .ok file →
        Bitmap.Shows file width height data ∧ Bitmap.contents file = (width, height, data)) ∧
    ∀ (p : Program) (capacity : Nat) (console : Console) (canvas : Canvas) (budgets : List Nat)
      (m : Machine) (d : Placed), p.verify = .ok () →
      afterRuns budgets (start p capacity console canvas) = m → m.isRunning = true →
      p.decodeAt m.ip = .ok d → d.opcode = .draw →
      ∃ w h n, (d.operand 0).Denotes w ∧ (d.operand 1).Denotes h ∧ (d.operand 2).Denotes n ∧
        n < ramSize ∧
        ((∃ e m', step m = .error (.failure e) m' ∧ m'.canvas = m.canvas ∧
            (m.canvas.refusal = none → Bitmap.Unfit w h n)) ∨
          ∃ file m', step m = .ok () m' ∧ m'.canvas = { m.canvas with picture := some file } ∧
            ¬ Bitmap.Unfit w h n ∧ Bitmap.Shows file w h (m.drawn n)) := by
  refine ⟨fun width height data hlength => ⟨Bitmap.encode_eq_error_iff, fun file hfile => ?_⟩,
    fun p capacity console canvas budgets m d hp hm hrunning hdecode hop => ?_⟩
  · have hshows := Bitmap.shows_of_encode hlength hfile
    exact ⟨hshows, hshows.contents_eq⟩
  · have hsafe : Safe p m :=
      hm ▸ safe_afterRuns hp (safe_start hp capacity console canvas) budgets
    exact step_draw hp hsafe hrunning hdecode hop

/-- A program that stores -1, 2.75 and 300 in the first memory cells, and draws the three of them
as one pixel. -/
def drawExample : Program :=
  .ofCode (List.flatMap Instruction.encode
    [⟨.push, [.ofNat 0, ⟨0xbff0000000000000⟩]⟩, ⟨.pop, [.ofNat 2, .ofNat 0]⟩,
     ⟨.push, [.ofNat 0, ⟨0x4006000000000000⟩]⟩, ⟨.pop, [.ofNat 2, .ofNat 5]⟩,
     ⟨.push, [.ofNat 0, .ofNat 300]⟩, ⟨.pop, [.ofNat 2, .ofNat 10]⟩,
     ⟨.draw, [.ofNat 1, .ofNat 1, .ofNat 3]⟩])

/-- The data of a picture is recovered from its file.  Of the cells that are drawn, the negative
one becomes the least byte, the fraction loses what is after the point, and the last one becomes
the greatest byte. -/
theorem pictures_exact_drawExample :
    let m := afterRuns [6] (start drawExample 8 (.ofInput []) (.blank "" none))
    (∃ file, Bitmap.encode 1 1 [7, 8, 9] = .ok file ∧ Bitmap.contents file = (1, 1, [7, 8, 9])) ∧
      drawExample.verify = .ok () ∧ m.isRunning = true ∧
      ∃ file m', step m = .ok () m' ∧ m'.canvas.picture = some file ∧
        Bitmap.Shows file 1 1 [0, 2, 255] := by
  intro m
  have hfile : Bitmap.encode 1 1 [7, 8, 9] = .ok (Bitmap.fileOf 1 1 [7, 8, 9]) := by decide
  have hcontents := ((pictures_exact.1 1 1 [7, 8, 9] (by decide)).2 _ hfile).2
  have hp : drawExample.verify = .ok () := by decide +kernel
  have hrunning : m.isRunning = true := by decide +kernel
  have hdecode : drawExample.decodeAt m.ip =
      .ok ⟨⟨.draw, [.ofNat 1, .ofNat 1, .ofNat 3]⟩, 108⟩ := by decide +kernel
  obtain ⟨w, h, n, hw, hh, hn, _, hdraw⟩ := pictures_exact.2 drawExample 8 (.ofInput [])
    (.blank "" none) [6] m _ hp rfl hrunning hdecode rfl
  have hunique {k j : Nat} (hk : k ≤ Double.maxIndex) (hj : (Double.ofNat k).Denotes j) : k = j :=
    Option.some.inj ((Double.index?_ofNat hk).symm.trans (Double.index?_eq_some_iff.mpr hj))
  obtain rfl : 1 = w := hunique (by decide) hw
  obtain rfl : 1 = h := hunique (by decide) hh
  obtain rfl : 3 = n := hunique (by decide) hn
  have hdrawn : m.drawn 3 = [0, 2, 255] := by decide +kernel
  have hrefusal : m.canvas.refusal = none := by decide +kernel
  rcases hdraw with ⟨_, _, _, _, hunfit⟩ | ⟨file, m', hstep, hcanvas, _, hshows⟩
  · exact absurd (hunfit hrefusal) (by unfold Bitmap.Unfit; decide)
  · rw [hdrawn] at hshows
    exact ⟨⟨_, hfile, hcontents⟩, hp, hrunning, file, m', hstep, by rw [hcanvas], hshows⟩

end Machine

end StackMachine
