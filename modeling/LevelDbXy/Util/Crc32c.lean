import LevelDbXy.Util.Coding
import LevelDbXy.Util.Crc32cTables

/-!
# CRC-32C

The portable path of `Extend` in `util/crc32c.cpp`: bytes up to an aligned address, four
interleaved strides of 16-byte swaths, leftover words that rotate the strides, and bytes
again. The reference is the register that absorbs one byte and takes eight steps. Each
loop of the source keeps `absorbAll` of the value its strides stand for (`combine`) and
the bytes still to come.
-/

namespace LevelDbXy.Crc32c

open Coding ShiftRegister

/-- `kCrc32Xor`. -/
def kCrc32Xor : BitVec 32 := 0xFFFFFFFF#32

/-- `ReadUint32LE`. -/
def readUint32LE (buffer : Bytes) : BitVec 32 := BitVec.ofNat 32 (decodeFixed32 buffer)

/-- `RoundUp<4>`, which clears the two low bits of the address after adding three. -/
def roundUp4 (pointer : Nat) : Nat := (pointer + 3) >>> 2 <<< 2

/-- `AccelerateCrc32C` without `HAVE_CRC32C`. -/
def accelerateCrc32C (_crc : BitVec 32) (_data : Bytes) : BitVec 32 := 0

/-- `CanAccelerateCrc32C`, over the bytes of `TestCRCBuffer`. -/
def canAccelerateCrc32C : Bool :=
  accelerateCrc32C 0 [84, 101, 115, 116, 67, 82, 67, 66, 117, 102, 102, 101, 114] ==
    0xDCBC59FA#32

/-- An entry of one of the tables. -/
def entry (table : List (BitVec 32)) (index : BitVec 32) : BitVec 32 := table.getD index.toNat 0

/-- `STEP1`. -/
def step1 (l : BitVec 32) (byte : UInt8) : BitVec 32 :=
  let c := (l &&& 0xFF#32) ^^^ byte.toBitVec.setWidth 32
  entry kByteExtensionTable c ^^^ l >>> 8

/-- `STEP4` of one stride, over the bytes the stride reads. -/
def step4 (crc : BitVec 32) (p : Bytes) : BitVec 32 :=
  readUint32LE p ^^^ entry kStrideExtensionTable3 (crc &&& 0xFF#32) ^^^
    entry kStrideExtensionTable2 (crc >>> 8 &&& 0xFF#32) ^^^
    entry kStrideExtensionTable1 (crc >>> 16 &&& 0xFF#32) ^^^
    entry kStrideExtensionTable0 (crc >>> 24)

/-- The four stride partial results. -/
structure Strides where
  crc0 : BitVec 32
  crc1 : BitVec 32
  crc2 : BitVec 32
  crc3 : BitVec 32

/-- `STEP16`. -/
def step16 (crc : Strides) (p : Bytes) : Strides where
  crc0 := step4 crc.crc0 p
  crc1 := step4 crc.crc1 (p.drop 4)
  crc2 := step4 crc.crc2 (p.drop 8)
  crc3 := step4 crc.crc3 (p.drop 12)

/-- The loop over 16-byte swaths: the strides and the bytes left. -/
def swaths (crc : Strides) (p : Bytes) : Strides × Bytes :=
  if 16 ≤ p.length then swaths (step16 crc p) (p.drop 16) else (crc, p)
termination_by p.length

/-- The loop over leftover words, which rotates the strides. -/
def words (crc : Strides) (p : Bytes) : Strides × Bytes :=
  if 4 ≤ p.length then words ⟨crc.crc1, crc.crc2, crc.crc3, step4 crc.crc0 p⟩ (p.drop 4)
  else (crc, p)
termination_by p.length

/-- One round of `STEP4W`. -/
def byteStep (w : BitVec 32) : BitVec 32 := w >>> 8 ^^^ entry kByteExtensionTable (w &&& 0xFF#32)

/-- `STEP4W`. -/
def step4W (l w : BitVec 32) : BitVec 32 := byteStep^[4] (w ^^^ l)

/-- The four partial results combined. -/
def combine (crc : Strides) : BitVec 32 :=
  step4W (step4W (step4W (step4W 0#32 crc.crc0) crc.crc1) crc.crc2) crc.crc3

/-- The bytes before the first aligned address, when it is not past the end: the register and
the bytes left. -/
def align (address : Nat) (l : BitVec 32) (p : Bytes) : BitVec 32 × Bytes :=
  let x := roundUp4 address
  if x ≤ address + p.length then
    ((p.take (x - address)).foldl step1 l, p.drop (x - address))
  else (l, p)

/-- The part of `Extend` that works on strides: the register and the bytes left. -/
def stride (l : BitVec 32) (p : Bytes) : BitVec 32 × Bytes :=
  if 16 ≤ p.length then
    let loaded : Strides := ⟨readUint32LE p ^^^ l, readUint32LE (p.drop 4),
      readUint32LE (p.drop 8), readUint32LE (p.drop 12)⟩
    let swathed := swaths loaded (p.drop 16)
    let advanced := words swathed.1 swathed.2
    (combine advanced.1, advanced.2)
  else (l, p)

/-- `Extend` of the bytes at an address. -/
def extend (initCrc : BitVec 32) (address : Nat) (data : Bytes) : BitVec 32 :=
  if canAccelerateCrc32C then accelerateCrc32C initCrc data
  else
    let aligned := align address (initCrc ^^^ kCrc32Xor) data
    let strided := stride aligned.1 aligned.2
    strided.2.foldl step1 strided.1 ^^^ kCrc32Xor

/-! ### The definition of the code -/

/-- One byte, bit by bit: it is added to the register, which then takes eight steps. -/
def absorb (register : BitVec 32) (byte : UInt8) : BitVec 32 :=
  advance 8 (register ^^^ byte.toBitVec.setWidth 32)

/-- A string, byte by byte. -/
def absorbAll (register : BitVec 32) (data : Bytes) : BitVec 32 := data.foldl absorb register

/-- CRC-32C continued from an earlier value, with inversion before and after. -/
def crc32c (initCrc : BitVec 32) (data : Bytes) : BitVec 32 :=
  absorbAll (initCrc ^^^ 0xFFFFFFFF#32) data ^^^ 0xFFFFFFFF#32

/-- Bytes one behind the other are absorbed one after the other. -/
theorem absorbAll_append (register : BitVec 32) (first second : Bytes) :
    absorbAll register (first ++ second) = absorbAll (absorbAll register first) second :=
  List.foldl_append

/-- To advance the register is linear. -/
theorem advance_xor (count : Nat) (a b : BitVec 32) :
    advance count (a ^^^ b) = advance count a ^^^ advance count b :=
  steps_xor polynomial count a b

/-- Advances add up. -/
theorem advance_advance (first second : Nat) (register : BitVec 32) :
    advance first (advance second register) = advance (first + second) register :=
  (Function.iterate_add_apply _ first second register).symm

/-! ### Table steps -/

/-- The low byte of the register is an index of the tables. -/
theorem and_byte_lt (register : BitVec 32) : (register &&& 0xFF#32).toNat < 2 ^ 8 := by
  rw [BitVec.toNat_and]
  exact Nat.lt_of_le_of_lt Nat.and_le_right (by decide)

/-- The entry of a table for so many bits is the register advanced by them. -/
theorem entry_linearTable (count : Nat) {index : BitVec 32} (inside : index.toNat < 2 ^ 8) :
    entry (linearTable (advance count) 8) index = advance count index :=
  linearTable_getD (advance_xor count) inside

/-- One round of `STEP4W` is eight steps of the register. -/
theorem byteStep_eq (w : BitVec 32) : byteStep w = advance 8 w := by
  rw [byteStep, kByteExtensionTable_eq, entry_linearTable 8 (and_byte_lt w), BitVec.xor_comm]
  exact (steps_split polynomial 8 w).symm

/-- `STEP1` absorbs a byte. -/
theorem step1_eq (l : BitVec 32) (byte : UInt8) : step1 l byte = absorb l byte := by
  obtain ⟨word, wordEq⟩ : ∃ word : BitVec 32, word = byte.toBitVec.setWidth 32 := ⟨_, rfl⟩
  have small : word.toNat < 256 := by
    rw [wordEq, BitVec.toNat_setWidth]
    exact Nat.lt_of_le_of_lt (Nat.mod_le ..) byte.toBitVec.isLt
  have kept : word &&& 0xFF#32 = word := by
    apply BitVec.eq_of_toNat_eq
    rw [BitVec.toNat_and]
    exact (Nat.and_two_pow_sub_one_eq_mod _ 8).trans (Nat.mod_eq_of_lt small)
  have gone : word >>> 8 = 0 := by
    apply BitVec.eq_of_toNat_eq
    rw [BitVec.toNat_ushiftRight, Nat.shiftRight_eq_div_pow]
    exact Nat.div_eq_of_lt small
  have low : (l ^^^ word) &&& 0xFF#32 = (l &&& 0xFF#32) ^^^ word := by
    apply BitVec.eq_of_toNat_eq
    rw [BitVec.toNat_and, BitVec.toNat_xor, BitVec.toNat_xor, Nat.and_xor_distrib_right,
      ← BitVec.toNat_and, ← BitVec.toNat_and, kept]
  have shifted : (l ^^^ word) >>> 8 = l >>> 8 := by
    rw [BitVec.ushiftRight_xor_distrib, gone]
    exact BitVec.xor_zero
  rw [absorb, ← wordEq, ← byteStep_eq, byteStep, low, shifted, BitVec.xor_comm, step1, wordEq]

/-- The loop over single bytes absorbs them all. -/
theorem foldl_step1 (l : BitVec 32) (p : Bytes) : p.foldl step1 l = absorbAll l p := by
  have same : step1 = absorb := funext fun l => funext fun byte => step1_eq l byte
  rw [same, absorbAll]

/-- `STEP4W` advances the register by a word. -/
theorem step4W_eq (l w : BitVec 32) : step4W l w = advance 32 (l ^^^ w) := by
  have round : byteStep = advance 8 := funext byteStep_eq
  rw [step4W, round, BitVec.xor_comm w l]
  simp only [Function.iterate_succ, Function.iterate_zero, Function.comp_apply, id_eq,
    advance_advance]

/-- `STEP4` adds a word to the stride moved on by 16 bytes. -/
theorem step4_eq (crc : BitVec 32) (p : Bytes) :
    step4 crc p = readUint32LE p ^^^ advance 128 crc := by
  have first : advance 128 crc = advance 128 (crc &&& 0xFF#32) ^^^ advance 120 (crc >>> 8) :=
    steps_add_split polynomial 120 8 crc
  have second : advance 120 (crc >>> 8) =
      advance 120 (crc >>> 8 &&& 0xFF#32) ^^^ advance 112 (crc >>> 16) := by
    rw [show crc >>> 16 = crc >>> 8 >>> 8 from BitVec.shiftRight_add crc 8 8]
    exact steps_add_split polynomial 112 8 (crc >>> 8)
  have third : advance 112 (crc >>> 16) =
      advance 112 (crc >>> 16 &&& 0xFF#32) ^^^ advance 104 (crc >>> 24) := by
    rw [show crc >>> 24 = crc >>> 16 >>> 8 from BitVec.shiftRight_add crc 16 8]
    exact steps_add_split polynomial 104 8 (crc >>> 16)
  have top : (crc >>> 24).toNat < 2 ^ 8 := by
    rw [BitVec.toNat_ushiftRight, Nat.shiftRight_eq_div_pow]
    omega
  rw [step4, kStrideExtensionTable0_eq, kStrideExtensionTable1_eq, kStrideExtensionTable2_eq,
    kStrideExtensionTable3_eq, entry_linearTable _ (and_byte_lt _),
    entry_linearTable _ (and_byte_lt _), entry_linearTable _ (and_byte_lt _),
    entry_linearTable _ top, first, second, third]
  simp only [BitVec.xor_assoc]

/-! ### Words -/

/-- Byte `index` of a word that was read. -/
theorem readUint32LE_byte (p : Bytes) {index : Nat} (inside : index < 4) :
    readUint32LE p >>> (8 * index) &&& 0xFF#32 = (p.getD index 0).toBitVec.setWidth 32 := by
  have h0 := byteAt_lt p 0
  have h1 := byteAt_lt p 1
  have h2 := byteAt_lt p 2
  have h3 := byteAt_lt p 3
  have bounded : decodeFixed32 p < 2 ^ 32 := by
    rw [decodeFixed32_eq_sum]
    omega
  apply BitVec.eq_of_toNat_eq
  have value : (p.getD index 0).toBitVec.toNat = byteAt p index := rfl
  rw [BitVec.toNat_and, BitVec.toNat_ushiftRight, readUint32LE, BitVec.toNat_ofNat,
    Nat.mod_eq_of_lt bounded, Nat.shiftRight_eq_div_pow, BitVec.toNat_setWidth, value,
    decodeFixed32_eq_sum]
  refine (Nat.and_two_pow_sub_one_eq_mod _ 8).trans ?_
  obtain rfl | rfl | rfl | rfl : index = 0 ∨ index = 1 ∨ index = 2 ∨ index = 3 := by omega
  · omega
  · omega
  · omega
  · omega

/-- Four bytes absorbed one by one are one word absorbed at once. -/
theorem absorbAll_take_four (register : BitVec 32) {p : Bytes} (long : 4 ≤ p.length) :
    absorbAll register (p.take 4) = advance 32 (register ^^^ readUint32LE p) := by
  obtain ⟨word, wordEq⟩ : ∃ word, word = readUint32LE p := ⟨_, rfl⟩
  have byte : ∀ {index}, index < 4 →
      word >>> (8 * index) &&& 0xFF#32 = (p.getD index 0).toBitVec.setWidth 32 := by
    intro index inside
    rw [wordEq, readUint32LE_byte p inside]
  -- One byte of the word at a time, as the register reaches it.
  have peel : ∀ (later index : Nat) (register : BitVec 32), index < 4 →
      advance (later + 8) (register ^^^ word >>> (8 * index)) =
        advance later (absorb register (p.getD index 0) ^^^ word >>> (8 * (index + 1))) := by
    intro later index register inside
    have moved : word >>> (8 * (index + 1)) = word >>> (8 * index) >>> 8 :=
      BitVec.shiftRight_add word (8 * index) 8
    rw [absorb, ← byte inside, moved]
    exact steps_add_word polynomial later 8 register (word >>> (8 * index))
  have gone : word >>> (8 * (3 + 1)) = 0#32 := by
    apply BitVec.eq_of_toNat_eq
    rw [BitVec.toNat_ushiftRight, Nat.shiftRight_eq_div_pow]
    exact Nat.div_eq_of_lt word.isLt
  have start : word = word >>> (8 * 0) := (BitVec.ushiftRight_zero word).symm
  have taken : p.take 4 = [p.getD 0 0, p.getD 1 0, p.getD 2 0, p.getD 3 0] := by
    match p, long with
    | _ :: _ :: _ :: _ :: _, _ => rfl
  rw [← wordEq, start, peel 24 0 register (by decide), peel 16 1 _ (by decide),
    peel 8 2 _ (by decide), peel 0 3 _ (by decide), gone, taken]
  simp only [absorbAll, List.foldl_cons, List.foldl_nil, BitVec.xor_zero]
  rfl

/-- A word absorbed at once is its four bytes absorbed one by one. -/
theorem absorbAll_word (register : BitVec 32) {p : Bytes} (long : 4 ≤ p.length) :
    absorbAll (advance 32 (register ^^^ readUint32LE p)) (p.drop 4) = absorbAll register p := by
  rw [← absorbAll_take_four register long, ← absorbAll_append, List.take_append_drop]

/-! ### Strides -/

/-- The value the strides stand for, as a register. -/
theorem combine_eq (crc : Strides) :
    combine crc = advance 128 crc.crc0 ^^^ advance 96 crc.crc1 ^^^ advance 64 crc.crc2 ^^^
      advance 32 crc.crc3 := by
  simp only [combine, step4W_eq, advance_xor, advance_advance, BitVec.zero_xor]

/-- Rotating a word into the strides absorbs it. -/
theorem combine_rotate (crc : Strides) (p : Bytes) :
    combine ⟨crc.crc1, crc.crc2, crc.crc3, step4 crc.crc0 p⟩ =
      advance 32 (combine crc ^^^ readUint32LE p) := by
  simp only [combine_eq, step4_eq, advance_xor, advance_advance]
  ac_rfl

/-- A rotation keeps what the strides and the remaining bytes amount to. -/
theorem absorbAll_rotate (crc : Strides) {p : Bytes} (long : 4 ≤ p.length) :
    absorbAll (combine ⟨crc.crc1, crc.crc2, crc.crc3, step4 crc.crc0 p⟩) (p.drop 4) =
      absorbAll (combine crc) p := by
  rw [combine_rotate, absorbAll_word _ long]

/-- The loop over words of four strides keeps the result. -/
theorem words_keeps (crc : Strides) (p : Bytes) :
    absorbAll (combine (words crc p).1) (words crc p).2 = absorbAll (combine crc) p := by
  fun_induction words crc p with
  | case1 crc p long inductionHypothesis =>
    rw [inductionHypothesis]
    exact absorbAll_rotate crc long
  | case2 crc p short => rfl

/-- A swath is four rotations. -/
theorem absorbAll_step16 (crc : Strides) {p : Bytes} (long : 16 ≤ p.length) :
    absorbAll (combine (step16 crc p)) (p.drop 16) = absorbAll (combine crc) p := by
  have first := @absorbAll_rotate crc p (by omega)
  have second := @absorbAll_rotate ⟨crc.crc1, crc.crc2, crc.crc3, step4 crc.crc0 p⟩ (p.drop 4)
    (by rw [List.length_drop]; omega)
  have third := @absorbAll_rotate ⟨crc.crc2, crc.crc3, step4 crc.crc0 p,
    step4 crc.crc1 (p.drop 4)⟩ (p.drop 8) (by rw [List.length_drop]; omega)
  have fourth := @absorbAll_rotate ⟨crc.crc3, step4 crc.crc0 p, step4 crc.crc1 (p.drop 4),
    step4 crc.crc2 (p.drop 8)⟩ (p.drop 12) (by rw [List.length_drop]; omega)
  rw [List.drop_drop] at second third fourth
  exact fourth.trans (third.trans (second.trans first))

/-- The loop over swaths of sixteen bytes keeps the result. -/
theorem swaths_keeps (crc : Strides) (p : Bytes) :
    absorbAll (combine (swaths crc p).1) (swaths crc p).2 = absorbAll (combine crc) p := by
  fun_induction swaths crc p with
  | case1 crc p long inductionHypothesis =>
    rw [inductionHypothesis]
    exact absorbAll_step16 crc long
  | case2 crc p short => rfl

/-- The first swath, loaded with the register in its first word. -/
theorem absorbAll_loaded (l : BitVec 32) {p : Bytes} (long : 16 ≤ p.length) :
    absorbAll (combine ⟨readUint32LE p ^^^ l, readUint32LE (p.drop 4), readUint32LE (p.drop 8),
      readUint32LE (p.drop 12)⟩) (p.drop 16) = absorbAll l p := by
  have word : ∀ (register : BitVec 32) (offset : Nat), offset + 4 ≤ p.length →
      absorbAll (advance 32 (register ^^^ readUint32LE (p.drop offset))) (p.drop (offset + 4)) =
        absorbAll register (p.drop offset) := by
    intro register offset inside
    rw [← absorbAll_word register (show 4 ≤ (p.drop offset).length by rw [List.length_drop]; omega),
      List.drop_drop]
  have first := word l 0 (by omega)
  rw [← word _ 4 (by omega), ← word _ 8 (by omega), ← word _ 12 (by omega)] at first
  simp only [combine, step4W_eq, BitVec.zero_xor, BitVec.xor_comm (readUint32LE p) l]
  exact first

/-- The part in strides keeps the result. -/
theorem stride_keeps (l : BitVec 32) (p : Bytes) :
    absorbAll (stride l p).1 (stride l p).2 = absorbAll l p := by
  rw [stride]
  split_ifs with long
  · simp only [words_keeps, swaths_keeps]
    exact absorbAll_loaded l long
  · rfl

/-- The bytes before the alignment keep the result. -/
theorem align_keeps (address : Nat) (l : BitVec 32) (p : Bytes) :
    absorbAll (align address l p).1 (align address l p).2 = absorbAll l p := by
  simp only [align]
  split_ifs with inside
  · rw [foldl_step1, ← absorbAll_append, List.take_append_drop]
  · rfl

/-- The portable path computes the definition, wherever the bytes lie. -/
theorem extend_eq_crc32c (initCrc : BitVec 32) (address : Nat) (data : Bytes) :
    extend initCrc address data = crc32c initCrc data := by
  have portable : canAccelerateCrc32C = false := by decide
  simp only [extend, portable, Bool.false_eq_true, if_false, foldl_step1, stride_keeps, align_keeps]
  rfl

/-- The checksum of a text is extended to that of the text and more. -/
theorem crc32c_append (initCrc : BitVec 32) (first second : Bytes) :
    crc32c (crc32c initCrc first) second = crc32c initCrc (first ++ second) := by
  simp only [crc32c, BitVec.xor_assoc, BitVec.xor_self, BitVec.xor_zero, absorbAll_append]

/-- The table-driven code equals the definition; so it does not depend on alignment, and it
can be continued over the parts of a string. -/
theorem extend_correct (initCrc : BitVec 32) (address : Nat) (data : Bytes) :
    extend initCrc address data = crc32c initCrc data ∧
      (∀ elsewhere, extend initCrc address data = extend initCrc elsewhere data) ∧
      ∀ (first second : Bytes) (firstAddress secondAddress : Nat),
        extend (extend initCrc firstAddress first) secondAddress second =
          extend initCrc address (first ++ second) := by
  refine ⟨extend_eq_crc32c initCrc address data, fun elsewhere => ?_, ?_⟩
  · rw [extend_eq_crc32c, extend_eq_crc32c]
  · intro first second firstAddress secondAddress
    rw [extend_eq_crc32c, extend_eq_crc32c, extend_eq_crc32c, crc32c_append]

-- The 32 zero bytes of the source's own test.
example : crc32c 0 (List.replicate 32 0) = 0x8a9136aa#32 := by decide +kernel

end LevelDbXy.Crc32c
