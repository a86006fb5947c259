import Mathlib.Algebra.Group.Nat.Defs
import Mathlib.Data.List.Basic
import ScriptGraph.Bytes.Base64
import ScriptGraph.Bytes.Deflate
import ScriptGraph.Text.Segment

/-!
Bytes that are written and read again. Characters stand for the bytes that they were made of, and blocks
hold the bytes that were put into them.
-/

set_option autoImplicit false
set_option relaxedAutoImplicit false

namespace ScriptGraph

theorem Text.trimmed_eq_self {text : List Char} (visible : ∀ c ∈ text, isBlank c = false) :
    trimmed text = text := by
  have whole : ∀ text : List Char, (∀ c ∈ text, isBlank c = false) → text.dropWhile isBlank = text := by
    intro text visible
    cases text with
    | nil => rfl
    | cons c text => rw [List.dropWhile_cons, visible c List.mem_cons_self]; rfl
  rw [trimmed, whole _ visible, whole _ fun c listed => visible c (List.mem_reverse.mp listed),
    List.reverse_reverse]

/-! ## Characters -/

namespace Base64

private theorem value?_digit : ∀ value < 64, value? (digit value) = some value ∧
    digit value ≠ '=' ∧ Text.isBlank (digit value) = false := by
  decide +kernel

private theorem toUInt8_eq {number : Nat} {byte : UInt8} (same : number = byte.toNat) :
    number.toUInt8 = byte :=
  same ▸ UInt8.ofNat_toNat

theorem decode?_encode (bytes : List UInt8) : decode? (encode bytes) = some bytes := by
  fun_induction encode bytes with
  | case1 => rfl
  | case2 a =>
    have small := a.toNat_lt
    obtain ⟨first, -⟩ := value?_digit (a.toNat / 4) (by omega)
    obtain ⟨second, -⟩ := value?_digit (a.toNat % 4 * 16) (by omega)
    have byte : (a.toNat / 4 * 4 + a.toNat % 4 * 16 / 16).toUInt8 = a := toUInt8_eq (by omega)
    rw [padding, decode?, first, second]
    change lastOne? _ _ = _
    rw [lastOne?, if_pos (Nat.mul_mod_left _ _), byte]
  | case3 a b =>
    have small := a.toNat_lt
    have small' := b.toNat_lt
    obtain ⟨first, -⟩ := value?_digit (a.toNat / 4) (by omega)
    obtain ⟨second, -⟩ := value?_digit (a.toNat % 4 * 16 + b.toNat / 16) (by omega)
    obtain ⟨third, other, -⟩ := value?_digit (b.toNat % 16 * 4) (by omega)
    have byte : (a.toNat / 4 * 4 + (a.toNat % 4 * 16 + b.toNat / 16) / 16).toUInt8 = a :=
      toUInt8_eq (by omega)
    have byte' : ((a.toNat % 4 * 16 + b.toNat / 16) % 16 * 16 + b.toNat % 16 * 4 / 4).toUInt8 = b :=
      toUInt8_eq (by omega)
    rw [padding, decode?, first, second, third]
    · change lastTwo? _ _ _ = _
      rw [lastTwo?, if_pos (Nat.mul_mod_left _ _), byte, byte']
    · exact other
  | case4 a b c rest ih =>
    have small := a.toNat_lt
    have small' := b.toNat_lt
    have small'' := c.toNat_lt
    obtain ⟨first, -⟩ := value?_digit (a.toNat / 4) (by omega)
    obtain ⟨second, -⟩ := value?_digit (a.toNat % 4 * 16 + b.toNat / 16) (by omega)
    obtain ⟨third, -⟩ := value?_digit (b.toNat % 16 * 4 + c.toNat / 64) (by omega)
    obtain ⟨fourth, other, -⟩ := value?_digit (c.toNat % 64) (by omega)
    have byte : (a.toNat / 4 * 4 + (a.toNat % 4 * 16 + b.toNat / 16) / 16).toUInt8 = a :=
      toUInt8_eq (by omega)
    have byte' : ((a.toNat % 4 * 16 + b.toNat / 16) % 16 * 16 +
        (b.toNat % 16 * 4 + c.toNat / 64) / 4).toUInt8 = b := toUInt8_eq (by omega)
    have byte'' : ((b.toNat % 16 * 4 + c.toNat / 64) % 4 * 64 + c.toNat % 64).toUInt8 = c :=
      toUInt8_eq (by omega)
    rw [decode?, first, second, third, fourth, ih]
    · change some (group _ _ _ _ ++ rest) = _
      rw [group, byte, byte', byte'']
      rfl
    · exact fun _ last _ => other last
    · exact fun last _ => other last

private theorem encode_visible (bytes : List UInt8) :
    ∀ c ∈ encode bytes, Text.isBlank c = false := by
  have visible : ∀ value < 64, Text.isBlank (digit value) = false :=
    fun value small => (value?_digit value small).2.2
  fun_induction encode bytes with
  | case1 => exact fun c listed => absurd listed List.not_mem_nil
  | case2 a =>
    have small := a.toNat_lt
    simp only [List.forall_mem_cons]
    exact ⟨visible _ (by omega), visible _ (by omega), rfl, rfl, fun c => nofun⟩
  | case3 a b =>
    have small := a.toNat_lt
    have small' := b.toNat_lt
    simp only [List.forall_mem_cons]
    exact ⟨visible _ (by omega), visible _ (by omega), visible _ (by omega), rfl, fun c => nofun⟩
  | case4 a b c rest ih =>
    have small := a.toNat_lt
    have small' := b.toNat_lt
    have small'' := c.toNat_lt
    simp only [List.forall_mem_cons]
    exact ⟨visible _ (by omega), visible _ (by omega), visible _ (by omega), visible _ (by omega), ih⟩

theorem trimmed_encode (bytes : List UInt8) : Text.trimmed (encode bytes) = encode bytes :=
  Text.trimmed_eq_self (encode_visible bytes)

end Base64

/-! ## Numbers of several bits -/

namespace Bits

private theorem bind_eq {α β : Type} {first : Reader α} {next : α → Reader β} {bits rest : Bits}
    {value : α} (reads : first bits = some (value, rest)) :
    (first >>= next) bits = next value rest := by
  change (first bits).bind _ = _
  rw [reads]
  rfl

private theorem number_succ (count : Nat) {bits rest : Bits} {lowest : Bool}
    (reads : bit bits = some (lowest, rest)) : number (count + 1) bits =
      (number count rest).map fun (value, bits) => (lowest.toNat + 2 * value, bits) := by
  rw [number, bind_eq reads]
  change (number count rest).bind _ = _
  cases number count rest <;> rfl

private theorem number_rest (byte : UInt8) (rest : List UInt8) (count : Nat) :
    ∀ left ≤ 7, number (count + left + 1) ⟨byte :: rest, 7 - left⟩ =
      (number count ⟨rest, 0⟩).map fun (value, bits) =>
        (byte.toNat / 2 ^ (7 - left) + 2 ^ (left + 1) * value, bits) := by
  intro left
  induction left with
  | zero =>
    intro _
    have last : (byte.toNat.testBit 7).toNat = byte.toNat / 2 ^ 7 := by
      have := byte.toNat_lt
      rw [Nat.toNat_testBit]
      omega
    have reads : bit ⟨byte :: rest, 7⟩ = some (byte.toNat.testBit 7, ⟨rest, 0⟩) := rfl
    have step := number_succ count reads
    rw [last] at step
    exact step
  | succ left ih =>
    intro most
    have used : 7 - (left + 1) < 7 := by omega
    have next : 7 - (left + 1) + 1 = 7 - left := by omega
    have reads : bit ⟨byte :: rest, 7 - (left + 1)⟩ =
        some (byte.toNat.testBit (7 - (left + 1)), ⟨byte :: rest, 7 - left⟩) := by
      rw [bit, if_pos used, next]
    have split : byte.toNat / 2 ^ (7 - left) = byte.toNat / 2 ^ (7 - (left + 1)) / 2 := by
      rw [← next, Nat.pow_succ, Nat.div_div_eq_div_mul]
    rw [← Nat.add_assoc, number_succ _ reads, ih (by omega), split, Nat.toNat_testBit,
      Option.map_map]
    congr 1
    funext ⟨value, bits⟩
    refine Prod.ext ?_ rfl
    change _ % 2 + 2 * (_ / 2 + 2 ^ (left + 1) * value) = _
    rw [Nat.mul_add, ← Nat.add_assoc, Nat.mod_add_div, ← Nat.mul_assoc, ← Nat.pow_succ']

private theorem number_bytes (low high : UInt8) (rest : List UInt8) :
    number 16 ⟨low :: high :: rest, 0⟩ = some (low.toNat + 256 * high.toNat, ⟨rest, 0⟩) := by
  have first := number_rest low (high :: rest) 8 7 (Nat.le_refl _)
  have second := number_rest high rest 0 7 (Nat.le_refl _)
  rw [Nat.zero_add] at second
  change number 16 ⟨low :: high :: rest, 0⟩ = (number 8 ⟨high :: rest, 0⟩).map _ at first
  change number 8 ⟨high :: rest, 0⟩ = some (high.toNat / 1 + 256 * 0, ⟨rest, 0⟩) at second
  have whole : low.toNat / 2 ^ (7 - 7) + 2 ^ (7 + 1) * (high.toNat / 1 + 256 * 0) =
      low.toNat + 256 * high.toNat := by omega
  rw [first, second]
  exact congrArg (fun value => some (value, (⟨rest, 0⟩ : Bits))) whole

end Bits

/-! ## Blocks -/

namespace Deflate

open Bits

private theorem number_twoBytes {size : Nat} (small : size ≤ blockSize) (rest : List UInt8) :
    number 16 ⟨twoBytes size ++ rest, 0⟩ = some (size, ⟨rest, 0⟩) := by
  rw [blockSize] at small
  have low : size.toUInt8.toNat = size % 256 := UInt8.toNat_ofNat'
  have high : (size / 256).toUInt8.toNat = size / 256 % 256 := UInt8.toNat_ofNat'
  have whole : size % 256 + 256 * (size / 256 % 256) = size := by omega
  have read := number_bytes size.toUInt8 (size / 256).toUInt8 rest
  rw [low, high, whole] at read
  exact read

private theorem readStored_block {bytes : List UInt8} (small : bytes.length ≤ blockSize)
    (used : UInt8) (rest : List UInt8) (out : Array UInt8) :
    readStored out ⟨used :: (twoBytes bytes.length ++ (twoBytes (0xFFFF - bytes.length) ++
      (bytes ++ rest))), 3⟩ = some (out ++ bytes, ⟨rest, 0⟩) := by
  have aligned : ∀ others, align ⟨used :: others, 3⟩ = some ((), ⟨others, 0⟩) := fun _ => rfl
  have complement : 0xFFFF - bytes.length ≤ blockSize := Nat.sub_le _ _
  have whole : bytes.length + (0xFFFF - bytes.length) = 0xFFFF := Nat.add_sub_cancel' small
  have taken : take bytes.length ⟨bytes ++ rest, 0⟩ = some (bytes, ⟨rest, 0⟩) := by
    rw [take, if_pos (by simp), List.take_left, List.drop_left]
  unfold readStored
  rw [bind_eq (aligned _), bind_eq (number_twoBytes small _),
    bind_eq (number_twoBytes complement _), if_pos whole, bind_eq taken]
  rfl

private theorem readBlocks_block (isLast : Bool) {bytes : List UInt8}
    (small : bytes.length ≤ blockSize) (rest : List UInt8) (size left : Nat) (out : Array UInt8) :
    readBlocks size (left + 1) out ⟨block isLast bytes ++ rest, 0⟩ =
      if isLast then some (out ++ bytes, ⟨rest, 0⟩)
      else readBlocks size left (out ++ bytes) ⟨rest, 0⟩ := by
  have stored := readStored_block small (if isLast then 1 else 0) rest out
  have whole : block isLast bytes ++ rest = (if isLast then 1 else 0) ::
      (twoBytes bytes.length ++ (twoBytes (0xFFFF - bytes.length) ++ (bytes ++ rest))) := by
    rw [block]
    simp only [List.append_assoc, List.cons_append]
  rw [whole, readBlocks]
  generalize twoBytes bytes.length ++ (twoBytes (0xFFFF - bytes.length) ++ (bytes ++ rest)) = others
    at stored ⊢
  have first : bit ⟨(if isLast then 1 else 0) :: others, 0⟩ =
      some (isLast, ⟨(if isLast then 1 else 0) :: others, 1⟩) := by
    cases isLast <;> rfl
  have kind : number 2 ⟨(if isLast then 1 else 0) :: others, 1⟩ =
      some (0, ⟨(if isLast then 1 else 0) :: others, 3⟩) := by
    cases isLast <;> rfl
  have read : readBlock size out ⟨(if isLast then 1 else 0) :: others, 1⟩ =
      some (out ++ bytes, ⟨rest, 0⟩) := by
    rw [readBlock, bind_eq kind]
    exact stored
  rw [bind_eq first, bind_eq read]
  cases isLast <;> rfl

private theorem block_length (isLast : Bool) (bytes : List UInt8) :
    (block isLast bytes).length = bytes.length + 5 := by
  simp only [block, twoBytes, List.length_append, List.length_cons, List.length_nil]
  omega

private theorem readBlocks_deflate (size : Nat) (bytes : List UInt8) :
    ∀ (left : Nat) (out : Array UInt8), (deflate bytes).length ≤ left →
      readBlocks size left out ⟨deflate bytes, 0⟩ = some (out ++ bytes, ⟨[], 0⟩) := by
  fun_induction deflate bytes with
  | case1 bytes small =>
    intro left out enough
    rw [block_length] at enough
    obtain ⟨left, rfl⟩ : ∃ more, left = more + 1 := ⟨left - 1, by omega⟩
    have read := readBlocks_block true small [] size left out
    rwa [List.append_nil] at read
  | case2 bytes large ih =>
    intro left out enough
    rw [List.length_append, block_length] at enough
    obtain ⟨left, rfl⟩ : ∃ more, left = more + 1 := ⟨left - 1, by omega⟩
    have cut : (bytes.take blockSize).length ≤ blockSize := List.length_take_le _ _
    have whole : out ++ bytes.take blockSize ++ bytes.drop blockSize = out ++ bytes := by
      apply Array.toList_inj.mp
      simp only [Array.toList_appendList, List.append_assoc, List.take_append_drop]
    rw [readBlocks_block false cut]
    simp only [Bool.false_eq_true, if_false]
    rw [ih left _ (by omega), whole]

theorem inflate?_deflate (bytes : List UInt8) : inflate? (deflate bytes) = some bytes := by
  unfold inflate?
  change ((readBlocks _ _ #[] ⟨deflate bytes, 0⟩).map fun result => result.1.toList) = _
  rw [readBlocks_deflate _ bytes _ #[] (by omega), Option.map_some, Array.toList_appendList]
  rfl

end Deflate

end ScriptGraph
