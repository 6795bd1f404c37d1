import Emrals.Serialize.Basic
import Emrals.Lib.BitList

/-!
# Bit sets

`src/serialize.h` writes a `std::vector<bool>` in four ways. `CFixedBitSet` packs the bits of a
known size eight to a byte, bit `p` at bit `p % 8` of byte `p / 8`, and its reader refuses a set
bit past the size ("Out-of-range bits set"). `CDynamicBitSet` puts the size in front as a
`CompactSize`. `CFixedVarIntsBitSet` writes the offsets between consecutive set bits as `VarInt`s
and a `0` to end them; its reader refuses an index at or past the size and one that does not move
past the last. `CAutoBitSet` writes a byte `0` or `1` and whichever of the first and third forms is
smaller.

Each reader gives back what its writer wrote (`fixedBitSetUnserialize_run_serialize`,
`dynBitSetUnserialize_run`, `fixedVarIntsBitSetUnserialize_run`, `autoBitSetSerialize_spec`), and
every string the fixed and the offset readers accept is the encoding of the bits read
(`fixedBitSetUnserialize_canonical`, `fixedVarIntsBitSetUnserialize_eq_some`). The bits of a byte
go through `BitList`'s `Nat.testBit` lemmas, the offsets through `trueIndexes` and `ofIndexes`.

Three limits come from the source (`bitset_encodings_limits`): `ReadCompactSize` refuses a size
past `MAX_SIZE`; the offset writer loops to `(int32_t)vec.size()`, which is negative from `2 ^ 31`
bits on, so its results hold below `2 ^ 31`; and `CAutoBitSet` takes the form of `VarInt`s on a
tie.
-/

namespace Emrals

open Codec BitList

/-! ## `CFixedBitSet` -/

/-- One pass of the loop of `CFixedBitSet::Serialize`: `vBytes[p / 8] |= vec[p] << (p % 8)`. -/
def fixedBitSetStep (vec : List Bool) (vBytes : List UInt8) (p : Nat) : List UInt8 :=
  vBytes.modify (p / 8) (· ||| (if vec.getD p false then 1 else 0) <<< (p % 8).toUInt8)

/-- `CFixedBitSet::Serialize`: `(size + 7) / 8` zero bytes, and the loop over the bits below
`min(size, vec.size())`. -/
def fixedBitSetSerialize (vec : List Bool) (size : Nat) : List UInt8 :=
  (List.range (min size vec.length)).foldl (fixedBitSetStep vec)
    (List.replicate ((size + 7) / 8) 0)

/-- `CFixedBitSet::Unserialize`: bit `p` of the result is bit `p % 8` of byte `p / 8`, and a set
bit of the last byte at or past `size` is "Out-of-range bits set". -/
def fixedBitSetUnserialize (size : Nat) : Reader (List Bool) := do
  let vBytes ← readBytes ((size + 7) / 8)
  let vec := (List.range size).map fun p => vBytes.getD (p / 8) 0 &&& 1 <<< (p % 8).toUInt8 != 0
  if vBytes.length * 8 ≠ size then
    let rem := vBytes.length * 8 - size
    let m : UInt8 := ~~~((0xff : UInt8) >>> rem.toUInt8)
    if vBytes.getD (vBytes.length - 1) 0 &&& m ≠ 0 then failure
  pure vec

theorem length_fixedBitSetStep (vec : List Bool) (vBytes : List UInt8) (p : Nat) :
    (fixedBitSetStep vec vBytes p).length = vBytes.length :=
  List.length_modify _ _ _

theorem length_foldl_fixedBitSetStep (vec : List Bool) :
    ∀ (ps : List Nat) (vBytes : List UInt8),
      (ps.foldl (fixedBitSetStep vec) vBytes).length = vBytes.length
  | [], _ => rfl
  | p :: ps, vBytes => by
    rw [List.foldl_cons, length_foldl_fixedBitSetStep vec ps, length_fixedBitSetStep]

theorem length_fixedBitSetSerialize (vec : List Bool) (size : Nat) :
    (fixedBitSetSerialize vec size).length = (size + 7) / 8 := by
  rw [fixedBitSetSerialize, length_foldl_fixedBitSetStep, List.length_replicate]

theorem getD_fixedBitSetStep (vec : List Bool) {vBytes : List UInt8} (p : Nat) {i : Nat}
    (hi : i < vBytes.length) :
    (fixedBitSetStep vec vBytes p).getD i 0 =
      if p / 8 = i then vBytes.getD i 0 ||| (if vec.getD p false then 1 else 0) <<< (p % 8).toUInt8
      else vBytes.getD i 0 := by
  rw [fixedBitSetStep, List.getD_eq_getElem?_getD, List.getElem?_modify,
    List.getElem?_eq_getElem hi, List.getD_eq_getElem _ _ hi]
  split <;> rfl

/-- The loop over the bits below `k` sets bit `j` of byte `i` to bit `8 * i + j` of `vec` when that
is below `k`, and leaves it clear otherwise. The induction is on `k`: the pass at `k` sets bit
`k % 8` of byte `k / 8` and no other. -/
theorem testBit_foldl_fixedBitSetStep (vec : List Bool) {m : Nat} :
    ∀ (k : Nat), k ≤ 8 * m → ∀ i j, j < 8 →
      (((List.range k).foldl (fixedBitSetStep vec) (List.replicate m 0)).getD i 0).toNat.testBit j =
        (decide (8 * i + j < k) && vec.getD (8 * i + j) false)
  | 0, _, i, j, _ => by
    rw [List.range_zero, List.foldl_nil, List.getD_eq_getElem?_getD, List.getElem?_replicate]
    split <;> simp
  | k + 1, hk, i, j, hj => by
    rw [List.range_succ, List.foldl_append, List.foldl_cons, List.foldl_nil]
    by_cases hi : i < m
    · have hlen :
          i < ((List.range k).foldl (fixedBitSetStep vec) (List.replicate m 0)).length := by
        rw [length_foldl_fixedBitSetStep, List.length_replicate]
        exact hi
      rw [getD_fixedBitSetStep _ _ hlen]
      split
      · next hki =>
        rw [testBit_or_shiftLeft _ _ (Nat.mod_lt _ (by decide)),
          testBit_foldl_fixedBitSetStep vec k (by omega) i j hj]
        by_cases hkj : k % 8 = j
        · -- the pass at `k` sets the bit asked for
          have hk' : 8 * i + j = k := by omega
          simp [hk', hkj]
        · have hk' : 8 * i + j ≠ k := by omega
          simp [hkj, show 8 * i + j < k + 1 ↔ 8 * i + j < k by omega]
      · next hki =>
        rw [testBit_foldl_fixedBitSetStep vec k (by omega) i j hj]
        simp [show 8 * i + j < k + 1 ↔ 8 * i + j < k by omega]
    · rw [List.getD_eq_default _ _ (by
        rw [length_fixedBitSetStep, length_foldl_fixedBitSetStep, List.length_replicate]; omega)]
      simp [show ¬ 8 * i + j < k + 1 by omega]

/-- Bit `j` of byte `i` of `CFixedBitSet::Serialize` is bit `8 * i + j` of `vec` below the size,
and clear from the size on. -/
theorem testBit_fixedBitSetSerialize (vec : List Bool) (size i : Nat) {j : Nat} (hj : j < 8) :
    ((fixedBitSetSerialize vec size).getD i 0).toNat.testBit j =
      (decide (8 * i + j < min size vec.length) && vec.getD (8 * i + j) false) :=
  testBit_foldl_fixedBitSetStep vec _ (by omega) i j hj

/-- The bits of a byte string below `size`, bit `p` at bit `p % 8` of byte `p / 8`. -/
def bitsOfBytes (size : Nat) (vBytes : List UInt8) : List Bool :=
  (List.range size).map fun p => (vBytes.getD (p / 8) 0).toNat.testBit (p % 8)

/-- The bits of a byte string at positions `size` and above are clear. -/
def PaddingClear (size : Nat) (vBytes : List UInt8) : Prop :=
  ∀ i j, j < 8 → size ≤ 8 * i + j → (vBytes.getD i 0).toNat.testBit j = false

/-- A string of whole bytes has no padding. -/
theorem paddingClear_of_length {size : Nat} {vBytes : List UInt8}
    (hlen : vBytes.length * 8 = size) : PaddingClear size vBytes := by
  intro i j hj hij
  rw [List.getD_eq_default _ _ (by omega)]
  simp

/-- The check of the last byte against `~(0xff >> rem)` is that the padding is clear. -/
theorem paddingCheck_iff {size : Nat} {vBytes : List UInt8}
    (hlen : vBytes.length = (size + 7) / 8) :
    vBytes.getD (vBytes.length - 1) 0 &&& ~~~((0xff : UInt8) >>> (vBytes.length * 8 - size).toUInt8)
      = 0 ↔ PaddingClear size vBytes := by
  rw [and_not_shiftRight_eq_zero _ (by omega)]
  constructor
  · intro hlt i j hj hij
    by_cases hi : i < vBytes.length
    · -- only the last byte holds bits past the size
      obtain rfl : i = vBytes.length - 1 := by omega
      exact Nat.testBit_lt_two_pow
        (Nat.lt_of_lt_of_le hlt (Nat.pow_le_pow_right (by decide) (by omega)))
    · rw [List.getD_eq_default _ _ (by omega)]
      simp
  · intro hclear
    apply Nat.lt_pow_two_of_testBit
    intro j hj
    by_cases hj8 : j < 8
    · exact hclear _ j hj8 (by omega)
    · exact Nat.testBit_lt_two_pow
        (Nat.lt_of_lt_of_le (UInt8.toNat_lt _) (Nat.pow_le_pow_right (by decide) (by omega)))

/-- `CFixedBitSet::Unserialize` reads a string of the size's bytes whose padding is clear as the
bits at their positions. -/
theorem fixedBitSetUnserialize_run {size : Nat} {vBytes : List UInt8}
    (hlen : vBytes.length = (size + 7) / 8) (hclear : PaddingClear size vBytes)
    (rest : List UInt8) :
    (fixedBitSetUnserialize size).run (vBytes ++ rest) = some (bitsOfBytes size vBytes, rest) := by
  have hbits : ((List.range size).map fun p =>
      vBytes.getD (p / 8) 0 &&& 1 <<< (p % 8).toUInt8 != 0) = bitsOfBytes size vBytes :=
    List.map_congr_left fun p _ => and_one_shiftLeft_ne_zero _ (Nat.mod_lt _ (by decide))
  unfold fixedBitSetUnserialize
  rw [← hlen, run_bind_of_run (readBytes_run _ _), hbits]
  by_cases hne : vBytes.length * 8 = size
  · simp [hne]
  · have hcheck := (paddingCheck_iff hlen).mpr hclear
    simp only [ne_eq, hne, not_false_eq_true, if_true, hcheck, not_true_eq_false, if_false]
    rfl

/-- A set bit past the size is "Out-of-range bits set". -/
theorem fixedBitSetUnserialize_run_of_not_clear {size : Nat} {vBytes : List UInt8}
    (hlen : vBytes.length = (size + 7) / 8) (hclear : ¬ PaddingClear size vBytes)
    (rest : List UInt8) : (fixedBitSetUnserialize size).run (vBytes ++ rest) = none := by
  have hne : vBytes.length * 8 ≠ size := fun h => hclear (paddingClear_of_length h)
  have hcheck := mt (paddingCheck_iff hlen).mp hclear
  unfold fixedBitSetUnserialize
  rw [← hlen, run_bind_of_run (readBytes_run _ _)]
  simp only [ne_eq, hne, not_false_eq_true, if_true, hcheck]
  rfl

/-- What `CFixedBitSet::Unserialize` accepts: the size's bytes with the padding clear, read as the
bits at their positions. -/
theorem fixedBitSetUnserialize_eq_some {size : Nat} {s rest : List UInt8} {vec : List Bool}
    (h : (fixedBitSetUnserialize size).run s = some (vec, rest)) :
    ∃ vBytes, s = vBytes ++ rest ∧ vBytes.length = (size + 7) / 8 ∧
      PaddingClear size vBytes ∧ vec = bitsOfBytes size vBytes := by
  have h' := h
  unfold fixedBitSetUnserialize at h'
  obtain ⟨vBytes, u, hread, -⟩ := run_bind_eq_some h'
  obtain ⟨rfl, hlen⟩ := readBytes_eq_some hread
  by_cases hclear : PaddingClear size vBytes
  · rw [fixedBitSetUnserialize_run hlen hclear] at h
    obtain ⟨rfl, rfl⟩ := Prod.mk.inj (Option.some.inj h)
    exact ⟨vBytes, rfl, hlen, hclear, rfl⟩
  · rw [fixedBitSetUnserialize_run_of_not_clear hlen hclear] at h
    cases h

/-- The bits of `CFixedBitSet::Serialize`'s bytes are the bits written. -/
theorem bitsOfBytes_fixedBitSetSerialize (vec : List Bool) :
    bitsOfBytes vec.length (fixedBitSetSerialize vec vec.length) = vec := by
  apply List.ext_getElem (by simp [bitsOfBytes])
  intro p _ hp
  simp only [bitsOfBytes, List.getElem_map, List.getElem_range]
  rw [testBit_fixedBitSetSerialize _ _ _ (Nat.mod_lt _ (by decide)),
    show 8 * (p / 8) + p % 8 = p by omega]
  simp [hp]

/-- Bytes with clear padding are `CFixedBitSet::Serialize` of their bits. -/
theorem fixedBitSetSerialize_bitsOfBytes {size : Nat} {vBytes : List UInt8}
    (hlen : vBytes.length = (size + 7) / 8) (hclear : PaddingClear size vBytes) :
    fixedBitSetSerialize (bitsOfBytes size vBytes) size = vBytes := by
  apply List.ext_getElem (by rw [length_fixedBitSetSerialize, hlen])
  intro i h1 h2
  apply uint8_eq_of_testBit_eq
  intro j hj
  rw [← List.getD_eq_getElem _ 0 h1, ← List.getD_eq_getElem _ 0 h2,
    testBit_fixedBitSetSerialize _ _ _ hj]
  by_cases hij : 8 * i + j < size
  · -- bit `8 * i + j` of the bits read is bit `j` of byte `i`
    have hdiv : (8 * i + j) / 8 = i := by omega
    have hmod : (8 * i + j) % 8 = j := by omega
    simp [bitsOfBytes, hij, List.getD_eq_getElem?_getD, hdiv, hmod]
  · rw [hclear i j hj (by omega)]
    simp [bitsOfBytes, hij]

/-- The padding of `CFixedBitSet::Serialize` is clear. -/
theorem paddingClear_fixedBitSetSerialize (vec : List Bool) (size : Nat) :
    PaddingClear size (fixedBitSetSerialize vec size) := by
  intro i j hj hij
  rw [testBit_fixedBitSetSerialize _ _ _ hj]
  simp [show ¬ 8 * i + j < min size vec.length by omega]

/-- `CFixedBitSet` reads back what it writes, at every size. -/
theorem fixedBitSetUnserialize_run_serialize (vec : List Bool) (rest : List UInt8) :
    (fixedBitSetUnserialize vec.length).run (fixedBitSetSerialize vec vec.length ++ rest) =
      some (vec, rest) := by
  rw [fixedBitSetUnserialize_run (length_fixedBitSetSerialize _ _)
    (paddingClear_fixedBitSetSerialize _ _), bitsOfBytes_fixedBitSetSerialize]

/-- Every string `CFixedBitSet::Unserialize` accepts is `CFixedBitSet::Serialize` of the bits
read. -/
theorem fixedBitSetUnserialize_canonical {size : Nat} {s rest : List UInt8} {vec : List Bool}
    (h : (fixedBitSetUnserialize size).run s = some (vec, rest)) :
    vec.length = size ∧ s = fixedBitSetSerialize vec size ++ rest := by
  obtain ⟨vBytes, rfl, hlen, hclear, rfl⟩ := fixedBitSetUnserialize_eq_some h
  exact ⟨by simp [bitsOfBytes], by rw [fixedBitSetSerialize_bitsOfBytes hlen hclear]⟩

/-! ## `CDynamicBitSet` -/

/-- `CDynamicBitSet::Serialize`: the size as a `CompactSize`, then the fixed form. -/
def dynBitSetSerialize (vec : List Bool) : List UInt8 :=
  writeCompactSize vec.length ++ fixedBitSetSerialize vec vec.length

/-- `CDynamicBitSet::Unserialize`: `vec.resize(ReadCompactSize(s))`, then the fixed form of that
size. -/
def dynBitSetUnserialize : Reader (List Bool) := do
  let size ← readCompactSize
  fixedBitSetUnserialize size

/-! ## `CFixedVarIntsBitSet` -/

/-- One pass of the loop of `CFixedVarIntsBitSet::Serialize` at bit `i`: a set bit writes its
offset `i - last` from the last set bit, as a `uint32_t` `VarInt`, and becomes the last. -/
def fixedVarIntsBitSetStep (vec : List Bool) (acc : List UInt8 × Int) (i : Nat) :
    List UInt8 × Int :=
  if vec.getD i false then (acc.1 ++ writeVarInt ((i - acc.2) % 2 ^ 32).toNat, i) else acc

/-- `CFixedVarIntsBitSet::Serialize`: the loop over the bits below `(int32_t)vec.size()` from
`last = -1`, then the stopper `0`. -/
def fixedVarIntsBitSetSerialize (vec : List Bool) : List UInt8 :=
  ((List.range (toInt32 vec.length).toNat).foldl (fixedVarIntsBitSetStep vec) ([], -1)).1 ++
    writeVarInt 0

/-- The loop of `CFixedVarIntsBitSet::Unserialize` after the set bit `last`: an offset `0` ends
it; the index `last + offset` is "out of bounds index" at or past the size, and "offset overflow"
when it is not past `last`. Each pass reads a byte at least, so the stream's length is fuel
enough. -/
def fixedVarIntsBitSetLoop (size : Nat) : Nat → Int → List Bool → Reader (List Bool)
  | 0, _, _ => failure
  | fuel + 1, last, vec => do
    let offset ← readVarInt (2 ^ 32 - 1)
    if offset = 0 then pure vec
    else
      let idx := toInt32 (last + offset)
      if toSizeT idx ≥ size then failure
      else if last ≠ -1 ∧ idx ≤ last then failure
      else fixedVarIntsBitSetLoop size fuel idx (vec.set idx.toNat true)

/-- `CFixedVarIntsBitSet::Unserialize`: `vec.assign(size, false)`, then the loop from
`last = -1`. -/
def fixedVarIntsBitSetUnserialize (size : Nat) : Reader (List Bool) := fun s =>
  (fixedVarIntsBitSetLoop size s.length (-1) (List.replicate size false)).run s

theorem fixedVarIntsBitSetUnserialize_run_eq (size : Nat) (s : List UInt8) :
    (fixedVarIntsBitSetUnserialize size).run s =
      (fixedVarIntsBitSetLoop size s.length (-1) (List.replicate size false)).run s :=
  rfl

/-- The offsets of the strictly increasing indexes `is` after `last`: each index less the one
before it. -/
def offsetsFrom : Int → List Nat → List Nat
  | _, [] => []
  | last, i :: is => (i - last).toNat :: offsetsFrom i is

theorem length_writeVarInt_pos (n : Nat) : 0 < (writeVarInt n).length := by
  rw [writeVarInt, writeVarIntLoop_self, List.length_append, List.length_singleton]
  omega

theorem length_flatMap_writeVarInt_ge :
    ∀ ns : List Nat, ns.length ≤ (ns.flatMap writeVarInt).length
  | [] => Nat.le_refl _
  | n :: ns => by
    rw [List.flatMap_cons, List.length_append, List.length_cons]
    have := length_writeVarInt_pos n
    have := length_flatMap_writeVarInt_ge ns
    omega

theorem length_offsetsFrom :
    ∀ (last : Int) (is : List Nat), (offsetsFrom last is).length = is.length
  | _, [] => rfl
  | _, _ :: is => by rw [offsetsFrom, List.length_cons, List.length_cons, length_offsetsFrom _ is]

/-- The passes of the writer over strictly increasing set bits after `last`, each less than
`2 ^ 32` past `last`, write their offsets. -/
theorem foldl_fixedVarIntsBitSetStep_trueIndexes :
    ∀ (is : List Nat) (bs : List UInt8) (last : Int), is.Pairwise (· < ·) →
      (∀ i ∈ is, last < i ∧ i < last + 2 ^ 32) →
      (is.foldl (fun (acc : List UInt8 × Int) (i : Nat) =>
        (acc.1 ++ writeVarInt ((i - acc.2) % 2 ^ 32).toNat, (i : Int))) (bs, last)).1 =
        bs ++ (offsetsFrom last is).flatMap writeVarInt
  | [], bs, _, _, _ => by simp [offsetsFrom]
  | i :: is, bs, last, hs, hi => by
    rw [List.pairwise_cons] at hs
    obtain ⟨hlast, hwrap⟩ := hi i List.mem_cons_self
    have hmod : ((i : Int) - last) % 2 ^ 32 = (i : Int) - last :=
      Int.emod_eq_of_lt (by omega) (by omega)
    rw [List.foldl_cons, hmod, foldl_fixedVarIntsBitSetStep_trueIndexes is _ i hs.2
      (fun k hk => ⟨by have := hs.1 k hk; omega,
        by have := hi k (List.mem_cons_of_mem i hk); omega⟩),
      offsetsFrom, List.flatMap_cons, List.append_assoc]

/-- Below `2 ^ 31` bits, `CFixedVarIntsBitSet::Serialize` writes the offsets of the set bits,
then the stopper. -/
theorem fixedVarIntsBitSetSerialize_eq {vec : List Bool} (hn : vec.length < 2 ^ 31) :
    fixedVarIntsBitSetSerialize vec =
      (offsetsFrom (-1) (trueIndexes vec)).flatMap writeVarInt ++ writeVarInt 0 := by
  have hint : (toInt32 vec.length).toNat = vec.length := by
    unfold toInt32
    split <;> omega
  have hstep : fixedVarIntsBitSetStep vec = fun acc i => if vec.getD i false = true then
      (acc.1 ++ writeVarInt ((i - acc.2) % 2 ^ 32).toNat, (i : Int)) else acc := rfl
  have htrue : (List.range vec.length).filter (vec.getD · false) = trueIndexes vec := rfl
  rw [fixedVarIntsBitSetSerialize, hint, hstep, ← List.foldl_filter, htrue,
    foldl_fixedVarIntsBitSetStep_trueIndexes _ _ _ (pairwise_trueIndexes vec) ?bounds,
    List.nil_append]
  case bounds =>
    intro i hi
    have := (mem_trueIndexes.mp hi).1
    omega

/-- The index the decoder computes from `last` and an offset passes both of its checks only when
it is `last + offset` itself, past `last` and below the size. -/
theorem toInt32_of_checks {last : Int} {offset size : Nat} (hlast : -1 ≤ last)
    (hlast' : last < 2 ^ 31) (hoff : offset < 2 ^ 32) (hsize : size < 2 ^ 31)
    (hbound : ¬ toSizeT (toInt32 (last + offset)) ≥ size)
    (hover : ¬ (last ≠ -1 ∧ toInt32 (last + offset) ≤ last)) :
    toInt32 (last + offset) = last + offset ∧ last + offset < size := by
  unfold toSizeT at hbound
  unfold toInt32 at *
  split_ifs at * <;> omega

/-- The loop reads the offsets of strictly increasing indexes below the size, then the stopper,
and sets those bits. The induction is on the indexes; each pass reads one offset. -/
theorem fixedVarIntsBitSetLoop_run {size : Nat} (hsize : size < 2 ^ 31) :
    ∀ (is : List Nat) (fuel : Nat) (last : Int) (js : List Nat) (rest : List UInt8),
      is.length < fuel → -1 ≤ last → is.Pairwise (· < ·) →
      (∀ i ∈ is, last < i ∧ i < size) →
      (fixedVarIntsBitSetLoop size fuel last (ofIndexes size js)).run
        ((offsetsFrom last is).flatMap writeVarInt ++ writeVarInt 0 ++ rest) =
          some (ofIndexes size (js ++ is), rest)
  | [], fuel + 1, last, js, rest, _, _, _, _ => by
    rw [offsetsFrom, List.flatMap_nil, List.nil_append, fixedVarIntsBitSetLoop,
      run_bind_of_run (readVarInt_run (by decide) rest), if_pos rfl, List.append_nil]
    rfl
  | i :: is, fuel + 1, last, js, rest, hfuel, hlast, hs, hi => by
    rw [List.pairwise_cons] at hs
    obtain ⟨hli, his⟩ := hi i List.mem_cons_self
    have hoff : ((i : Int) - last).toNat ≠ 0 := by omega
    have hidx : toInt32 (last + ((i : Int) - last).toNat) = i := by
      unfold toInt32
      split <;> omega
    have hsizeT : ¬ toSizeT (i : Int) ≥ size := by
      unfold toSizeT
      omega
    rw [offsetsFrom, List.flatMap_cons, List.append_assoc, List.append_assoc,
      fixedVarIntsBitSetLoop, run_bind_of_run (readVarInt_run (by omega) _), if_neg hoff]
    simp only [hidx, hsizeT, if_false, show ¬ (last ≠ -1 ∧ (i : Int) ≤ last) by omega,
      Int.toNat_natCast, set_ofIndexes]
    rw [← List.append_assoc, fixedVarIntsBitSetLoop_run hsize is fuel i (js ++ [i]) rest
      (by rw [List.length_cons] at hfuel; omega) (by omega) hs.2
      (fun k hk => ⟨by have := hs.1 k hk; omega, (hi k (List.mem_cons_of_mem i hk)).2⟩),
      List.append_assoc, List.singleton_append]

/-- What the loop accepts after `last`: the offsets of strictly increasing indexes past `last` and
below the size, then the stopper, with those bits set. The induction is on the fuel; each pass
reads one offset, which the index checks pin to the one `offsetsFrom` writes. -/
theorem fixedVarIntsBitSetLoop_eq_some {size : Nat} (hsize : size < 2 ^ 31) :
    ∀ (fuel : Nat) (last : Int) (js : List Nat) (s rest : List UInt8) (vec : List Bool),
      -1 ≤ last → last < 2 ^ 31 →
      (fixedVarIntsBitSetLoop size fuel last (ofIndexes size js)).run s = some (vec, rest) →
      ∃ is, s = (offsetsFrom last is).flatMap writeVarInt ++ writeVarInt 0 ++ rest ∧
        vec = ofIndexes size (js ++ is) ∧ is.Pairwise (· < ·) ∧
        ∀ i ∈ is, last < i ∧ i < size
  | 0, _, _, _, _, _, _, _, h => by cases h
  | fuel + 1, last, js, s, rest, vec, hlast, hlast', h => by
    rw [fixedVarIntsBitSetLoop] at h
    obtain ⟨offset, u, hread, hnext⟩ := run_bind_eq_some h
    obtain ⟨hoff, rfl⟩ := readVarInt_eq_some (w := 32) (by decide) hread
    split at hnext
    · -- the stopper
      next hzero =>
      obtain ⟨rfl, rfl⟩ := run_pure_eq_some hnext
      exact ⟨[], by rw [hzero]; rfl, by rw [List.append_nil], List.Pairwise.nil,
        fun _ h => absurd h List.not_mem_nil⟩
    dsimp only at hnext
    split at hnext
    · cases hnext
    split at hnext
    · cases hnext
    next hbound hover =>
    obtain ⟨hidx, hlt⟩ := toInt32_of_checks hlast hlast' hoff hsize hbound hover
    -- the index read is `last + offset`, a bit below the size
    obtain ⟨i, hi⟩ : ∃ i : Nat, (i : Int) = last + offset :=
      ⟨(last + offset).toNat, by omega⟩
    rw [hidx, ← hi, Int.toNat_natCast, set_ofIndexes] at hnext
    obtain ⟨is, rfl, rfl, hs, his⟩ :=
      fixedVarIntsBitSetLoop_eq_some hsize fuel _ _ u rest vec (by omega) (by omega) hnext
    refine ⟨i :: is, ?_, by rw [List.append_assoc, List.singleton_append],
      List.pairwise_cons.mpr ⟨fun k hk => by have := (his k hk).1; omega, hs⟩, ?_⟩
    · rw [offsetsFrom, List.flatMap_cons, show ((i : Int) - last).toNat = offset by omega]
      simp only [List.append_assoc]
    · intro k hk
      rcases List.mem_cons.mp hk with rfl | hk
      · omega
      · have := his k hk
        omega

/-- Below `2 ^ 31` bits, `CFixedVarIntsBitSet` reads back what it writes. -/
theorem fixedVarIntsBitSetUnserialize_run {vec : List Bool} (hn : vec.length < 2 ^ 31)
    (rest : List UInt8) :
    (fixedVarIntsBitSetUnserialize vec.length).run (fixedVarIntsBitSetSerialize vec ++ rest) =
      some (vec, rest) := by
  have hfuel : (trueIndexes vec).length <
      (fixedVarIntsBitSetSerialize vec ++ rest).length := by
    have hge := length_flatMap_writeVarInt_ge (offsetsFrom (-1) (trueIndexes vec))
    have hpos := length_writeVarInt_pos 0
    rw [length_offsetsFrom] at hge
    rw [fixedVarIntsBitSetSerialize_eq hn, List.length_append, List.length_append]
    omega
  rw [fixedVarIntsBitSetUnserialize_run_eq, ← ofIndexes_nil, fixedVarIntsBitSetSerialize_eq hn,
    fixedVarIntsBitSetLoop_run hn _ _ _ [] rest
      (by rwa [fixedVarIntsBitSetSerialize_eq hn] at hfuel) (by decide) (pairwise_trueIndexes vec)
      (fun i hi => ⟨by have := (mem_trueIndexes.mp hi).1; omega, (mem_trueIndexes.mp hi).1⟩),
    List.nil_append, ofIndexes_trueIndexes]

/-- Below `2 ^ 31` bits, every string `CFixedVarIntsBitSet::Unserialize` accepts is
`CFixedVarIntsBitSet::Serialize` of the bits read: offsets past the last index, indexes strictly
increasing and below the size. -/
theorem fixedVarIntsBitSetUnserialize_eq_some {size : Nat} (hsize : size < 2 ^ 31)
    {s rest : List UInt8} {vec : List Bool}
    (h : (fixedVarIntsBitSetUnserialize size).run s = some (vec, rest)) :
    vec.length = size ∧ s = fixedVarIntsBitSetSerialize vec ++ rest := by
  rw [fixedVarIntsBitSetUnserialize_run_eq, ← ofIndexes_nil] at h
  obtain ⟨is, rfl, rfl, hs, hi⟩ :=
    fixedVarIntsBitSetLoop_eq_some hsize _ _ _ _ rest vec (by decide) (by decide) h
  have hlen : (ofIndexes size ([] ++ is)).length = size := length_ofIndexes _ _
  refine ⟨hlen, ?_⟩
  rw [fixedVarIntsBitSetSerialize_eq (by omega), List.nil_append,
    trueIndexes_ofIndexes hs (fun i hmem => (hi i hmem).2)]

/-! ## `CAutoBitSet` -/

/-- `CAutoBitSet::Serialize`: `none` where `assert(vec.size() == size)` fails; otherwise the byte
`0` and the fixed form when its size is strictly below that of the form of `VarInt`s, and the
byte `1` and that form otherwise. -/
def autoBitSetSerialize (vec : List Bool) (size : Nat) : Option (List UInt8) :=
  if vec.length ≠ size then none
  else
    let size1 := (fixedBitSetSerialize vec size).length
    let size2 := (fixedVarIntsBitSetSerialize vec).length
    if size1 < size2 then some (0 :: fixedBitSetSerialize vec vec.length)
    else some (1 :: fixedVarIntsBitSetSerialize vec)

/-- `CAutoBitSet::Unserialize`: "invalid value for isVarInts byte" for a first byte other than
`0` and `1`. -/
def autoBitSetUnserialize (size : Nat) : Reader (List Bool) := do
  let isVarInts ← readByte
  if isVarInts ≠ 0 ∧ isVarInts ≠ 1 then failure
  if isVarInts = 0 then fixedBitSetUnserialize size else fixedVarIntsBitSetUnserialize size

theorem autoBitSetSerialize_eq (vec : List Bool) :
    autoBitSetSerialize vec vec.length =
      some (if (fixedBitSetSerialize vec vec.length).length <
          (fixedVarIntsBitSetSerialize vec).length then 0 :: fixedBitSetSerialize vec vec.length
        else 1 :: fixedVarIntsBitSetSerialize vec) := by
  rw [autoBitSetSerialize, if_neg (not_not.mpr rfl)]
  dsimp only
  split <;> rfl

theorem autoBitSetUnserialize_fixed (size : Nat) (s : List UInt8) :
    (autoBitSetUnserialize size).run (0 :: s) = (fixedBitSetUnserialize size).run s := by
  unfold autoBitSetUnserialize
  rw [run_bind_of_run (readByte_run _ _)]
  rfl

theorem autoBitSetUnserialize_varInts (size : Nat) (s : List UInt8) :
    (autoBitSetUnserialize size).run (1 :: s) = (fixedVarIntsBitSetUnserialize size).run s := by
  unfold autoBitSetUnserialize
  rw [run_bind_of_run (readByte_run _ _)]
  rfl

/-- `CDynamicBitSet` reads back what it writes up to `MAX_SIZE` bits. -/
theorem dynBitSetUnserialize_run {vec : List Bool} (hn : vec.length ≤ MAX_SIZE)
    (rest : List UInt8) :
    dynBitSetUnserialize.run (dynBitSetSerialize vec ++ rest) = some (vec, rest) := by
  rw [dynBitSetUnserialize, dynBitSetSerialize, List.append_assoc,
    run_bind_of_run (readCompactSize_run hn _), fixedBitSetUnserialize_run_serialize]

/-- `CAutoBitSet` writes the shorter form, the fixed one only when it is strictly shorter, and
reads back what it writes below `2 ^ 31` bits. -/
theorem autoBitSetSerialize_spec {vec : List Bool} (hn : vec.length < 2 ^ 31) :
    ∃ bytes, autoBitSetSerialize vec vec.length = some bytes ∧
      bytes.length = min (fixedBitSetSerialize vec vec.length).length
        (fixedVarIntsBitSetSerialize vec).length + 1 ∧
      (bytes.head? = some 0 ↔ (fixedBitSetSerialize vec vec.length).length <
        (fixedVarIntsBitSetSerialize vec).length) ∧
      ∀ rest : List UInt8,
        (autoBitSetUnserialize vec.length).run (bytes ++ rest) = some (vec, rest) := by
  refine ⟨_, autoBitSetSerialize_eq vec, ?_⟩
  split
  · next hlt =>
    refine ⟨by rw [List.length_cons, Nat.min_eq_left (Nat.le_of_lt hlt)], by simp [hlt],
      fun rest => ?_⟩
    rw [List.cons_append, autoBitSetUnserialize_fixed, fixedBitSetUnserialize_run_serialize]
  · next hge =>
    refine ⟨by rw [List.length_cons, Nat.min_eq_right (Nat.le_of_not_lt hge)], by simp [hge],
      fun rest => ?_⟩
    rw [List.cons_append, autoBitSetUnserialize_varInts, fixedVarIntsBitSetUnserialize_run hn]

/-- The bit-set formats round-trip within their limits: the fixed form at every size,
`CDynamicBitSet` up to `MAX_SIZE` bits, and the form of `VarInt`s and `CAutoBitSet` below
`2 ^ 31` bits, where `CAutoBitSet` writes the shorter form, the fixed one only when it is strictly
shorter. Every string the decoder of the fixed form accepts, and below `2 ^ 31` bits every one the
decoder of the form of `VarInt`s accepts, is the encoding of the bits read. -/
theorem bitset_encodings_round_trip :
    (∀ (vec : List Bool) (rest : List UInt8),
      (fixedBitSetUnserialize vec.length).run (fixedBitSetSerialize vec vec.length ++ rest) =
        some (vec, rest)) ∧
    (∀ vec : List Bool, vec.length ≤ MAX_SIZE → ∀ rest : List UInt8,
      dynBitSetUnserialize.run (dynBitSetSerialize vec ++ rest) = some (vec, rest)) ∧
    (∀ vec : List Bool, vec.length < 2 ^ 31 → ∀ rest : List UInt8,
      (fixedVarIntsBitSetUnserialize vec.length).run (fixedVarIntsBitSetSerialize vec ++ rest) =
        some (vec, rest)) ∧
    (∀ vec : List Bool, vec.length < 2 ^ 31 →
      ∃ bytes, autoBitSetSerialize vec vec.length = some bytes ∧
        bytes.length = min (fixedBitSetSerialize vec vec.length).length
          (fixedVarIntsBitSetSerialize vec).length + 1 ∧
        (bytes.head? = some 0 ↔ (fixedBitSetSerialize vec vec.length).length <
          (fixedVarIntsBitSetSerialize vec).length) ∧
        ∀ rest : List UInt8,
          (autoBitSetUnserialize vec.length).run (bytes ++ rest) = some (vec, rest)) ∧
    (∀ (size : Nat) (s rest : List UInt8) (vec : List Bool),
      (fixedBitSetUnserialize size).run s = some (vec, rest) →
        vec.length = size ∧ s = fixedBitSetSerialize vec size ++ rest) ∧
    (∀ size : Nat, size < 2 ^ 31 → ∀ (s rest : List UInt8) (vec : List Bool),
      (fixedVarIntsBitSetUnserialize size).run s = some (vec, rest) →
        vec.length = size ∧ s = fixedVarIntsBitSetSerialize vec ++ rest) :=
  ⟨fixedBitSetUnserialize_run_serialize, fun _ hn => dynBitSetUnserialize_run hn,
    fun _ hn => fixedVarIntsBitSetUnserialize_run hn, fun _ hn => autoBitSetSerialize_spec hn,
    fun _ _ _ _ h => fixedBitSetUnserialize_canonical h,
    fun _ hsize _ _ _ h => fixedVarIntsBitSetUnserialize_eq_some hsize h⟩

/-- Three bits `101`: the fixed form `0x05` and the offsets `1, 2` and the stopper, each read
back, and each the encoding of what it reads. -/
theorem bitset_encodings_round_trip_101 :
    dynBitSetUnserialize.run (dynBitSetSerialize [true, false, true] ++ []) =
      some ([true, false, true], []) ∧
    (fixedVarIntsBitSetUnserialize 3).run (fixedVarIntsBitSetSerialize [true, false, true] ++ []) =
      some ([true, false, true], []) ∧
    (∃ bytes, autoBitSetSerialize [true, false, true] 3 = some bytes ∧
      bytes.length = min (fixedBitSetSerialize [true, false, true] 3).length
        (fixedVarIntsBitSetSerialize [true, false, true]).length + 1 ∧
      (bytes.head? = some 0 ↔ (fixedBitSetSerialize [true, false, true] 3).length <
        (fixedVarIntsBitSetSerialize [true, false, true]).length) ∧
      ∀ rest : List UInt8,
        (autoBitSetUnserialize 3).run (bytes ++ rest) = some ([true, false, true], rest)) ∧
    ([true, false, true].length = 3 ∧
      [0x05] = fixedBitSetSerialize [true, false, true] 3 ++ []) ∧
    ([true, false, true].length = 3 ∧
      [1, 2, 0] = fixedVarIntsBitSetSerialize [true, false, true] ++ []) :=
  ⟨bitset_encodings_round_trip.2.1 [true, false, true] (by decide) [],
    bitset_encodings_round_trip.2.2.1 [true, false, true] (by decide) [],
    bitset_encodings_round_trip.2.2.2.1 [true, false, true] (by decide),
    bitset_encodings_round_trip.2.2.2.2.1 3 [0x05] [] [true, false, true] (by decide),
    bitset_encodings_round_trip.2.2.2.2.2 3 (by decide) [1, 2, 0] [] [true, false, true]
      (by decide)⟩

/-- Where the round trips stop. `CAutoBitSet` writes the form of `VarInt`s when the two forms
tie, as for eight clear bits. `ReadCompactSize` refuses a size past `MAX_SIZE`, so
`CDynamicBitSet` cannot read back `MAX_SIZE + 1` bits. At `2 ^ 31` bits `(int32_t)vec.size()` is
negative, the loop of `CFixedVarIntsBitSet::Serialize` writes no offset, and a set bit is lost,
in that form and in `CAutoBitSet`, which picks it. -/
theorem bitset_encodings_limits :
    autoBitSetSerialize (List.replicate 8 false) 8 = some [1, 0] ∧
    dynBitSetUnserialize.run (dynBitSetSerialize (List.replicate (MAX_SIZE + 1) false)) = none ∧
    fixedVarIntsBitSetSerialize (true :: List.replicate (2 ^ 31 - 1) false) = [0] ∧
    autoBitSetSerialize (true :: List.replicate (2 ^ 31 - 1) false) (2 ^ 31) = some [1, 0] ∧
    (fixedVarIntsBitSetUnserialize (2 ^ 31)).run [0] =
      some (List.replicate (2 ^ 31) false, []) := by
  have hlen : (true :: List.replicate (2 ^ 31 - 1) false).length = 2 ^ 31 := by
    rw [List.length_cons, List.length_replicate]
    decide
  have hvar : fixedVarIntsBitSetSerialize (true :: List.replicate (2 ^ 31 - 1) false) = [0] := by
    rw [fixedVarIntsBitSetSerialize, hlen, show (toInt32 (2 ^ 31 : Nat)).toNat = 0 by decide]
    rfl
  refine ⟨by decide, ?_, hvar, ?_, ?_⟩
  · rw [dynBitSetUnserialize, dynBitSetSerialize, List.length_replicate]
    exact run_bind_of_none (readCompactSize_run_of_gt (by decide) (by decide) _)
  · rw [autoBitSetSerialize, hlen, if_neg (not_not.mpr rfl)]
    dsimp only
    rw [length_fixedBitSetSerialize, hvar, if_neg (by decide)]
  · rw [fixedVarIntsBitSetUnserialize_run_eq, List.length_singleton, fixedVarIntsBitSetLoop,
      show ([0] : List UInt8) = writeVarInt 0 ++ [] from rfl,
      run_bind_of_run (readVarInt_run (by decide) [])]
    rfl

end Emrals
