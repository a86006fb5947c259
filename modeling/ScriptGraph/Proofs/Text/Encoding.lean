import Mathlib.Data.List.Basic

/-!
The bytes of texts. A character below 128 is one byte, any other one is bytes from 128 on; the bytes of
a text are those of its characters one after the other, and they are read as this text.
-/

set_option autoImplicit false
set_option relaxedAutoImplicit false

namespace ScriptGraph

private theorem toList_loop (bytes : ByteArray) (index : Nat) (done : List UInt8) :
    ByteArray.toList.loop bytes index done = done.reverse ++ bytes.data.toList.drop index := by
  induction left : bytes.size - index generalizing index done with
  | zero =>
    have beyond : bytes.data.toList.length ≤ index := by
      rw [Array.length_toList, ByteArray.size_data]
      omega
    rw [ByteArray.toList.loop, if_neg (by omega), List.drop_eq_nil_of_le beyond, List.append_nil]
  | succ left ih =>
    have inside : index < bytes.data.toList.length := by
      rw [Array.length_toList, ByteArray.size_data]
      omega
    have entry : bytes.get! index = bytes.data.toList[index] := by
      rw [Array.getElem_toList]
      exact getElem!_pos bytes.data index _
    rw [ByteArray.toList.loop, if_pos (by omega), ih (index + 1) _ (by omega), entry,
      List.drop_eq_getElem_cons inside, List.reverse_cons, List.append_assoc, List.singleton_append]

theorem toList_toByteArray (bytes : List UInt8) : bytes.toByteArray.toList = bytes := by
  rw [ByteArray.toList, toList_loop, List.reverse_nil, List.nil_append, List.drop_zero,
    List.toList_data_toByteArray]

namespace Text

def bytes (text : List Char) : List UInt8 := text.flatMap String.utf8EncodeChar

@[simp] theorem bytes_nil : bytes [] = [] := rfl

@[simp] theorem bytes_cons (c : Char) (text : List Char) :
    bytes (c :: text) = String.utf8EncodeChar c ++ bytes text := rfl

@[simp] theorem bytes_append (first second : List Char) :
    bytes (first ++ second) = bytes first ++ bytes second := List.flatMap_append

theorem toUTF8_toList (text : String) : text.toUTF8.toList = bytes text.toList := by
  rw [String.toUTF8_eq_toByteArray]
  conv_lhs => rw [← text.ofList_toList, String.toByteArray_ofList]
  exact toList_toByteArray _

theorem length_bytes (text : String) : (bytes text.toList).length = text.utf8ByteSize := by
  conv_rhs => rw [← text.ofList_toList]
  rw [← String.size_toByteArray, String.toByteArray_ofList]
  exact List.size_toByteArray.symm

theorem fromUTF8?_bytes (text : List Char) :
    String.fromUTF8? (bytes text).toByteArray = some (String.ofList text) := by
  have valid : (bytes text).toByteArray.IsValidUTF8 := ⟨text, rfl⟩
  rw [String.fromUTF8?, dif_pos valid]
  congr 1

theorem utf8EncodeChar_of_lt {c : Char} (small : c.toNat < 128) :
    String.utf8EncodeChar c = [c.toNat.toUInt8] := by
  have least : c.val.toNat ≤ 0x7f := Nat.lt_succ_iff.mp small
  rw [String.utf8EncodeChar]
  simp only [least, if_true]
  rfl

theorem le_of_mem_utf8EncodeChar {c : Char} (large : 128 ≤ c.toNat) {b : UInt8}
    (listed : b ∈ String.utf8EncodeChar c) : 128 ≤ b.toNat := by
  have most : ¬c.val.toNat ≤ 0x7f := Nat.not_le_of_lt large
  rw [String.utf8EncodeChar] at listed
  simp only [most, if_false] at listed
  split at listed
  · simp only [List.mem_cons, List.not_mem_nil, or_false] at listed
    rcases listed with rfl | rfl <;> rw [UInt8.toNat_ofNat'] <;> omega
  · split at listed
    · simp only [List.mem_cons, List.not_mem_nil, or_false] at listed
      rcases listed with rfl | rfl | rfl <;> rw [UInt8.toNat_ofNat'] <;> omega
    · simp only [List.mem_cons, List.not_mem_nil, or_false] at listed
      rcases listed with rfl | rfl | rfl | rfl <;> rw [UInt8.toNat_ofNat'] <;> omega

end Text

end ScriptGraph
