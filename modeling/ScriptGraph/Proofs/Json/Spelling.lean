import ScriptGraph.Json.Printer
import ScriptGraph.Json.Reader
import ScriptGraph.Proofs.Text.Encoding

/-!
Texts in documents. What is written for a text is read as this text, whatever follows its closing
quote: control characters, quotes and backslashes come back from their escapes, all other characters
byte by byte.
-/

set_option autoImplicit false
set_option relaxedAutoImplicit false

namespace ScriptGraph.Json

open Text (bytes)

private def sofar (done : Bytes) : Spelling := ⟨done, none, true⟩

private theorem readSpelling_plain {done rest : Bytes} {b : UInt8} (printable : 32 ≤ b.toNat)
    (quote : b.toNat ≠ 34) (backslash : b.toNat ≠ 92) :
    readSpelling (sofar done) (b :: rest) = readSpelling (sofar (b :: done)) rest := by
  have noQuote : b ≠ 34 := fun same => quote (same ▸ rfl)
  have noBackslash : b ≠ 92 := fun same => backslash (same ▸ rfl)
  have control : ¬(b < 32 ∨ b = 92) := by
    rw [not_or, UInt8.lt_iff_toNat_lt]
    exact ⟨Nat.not_lt_of_le printable, noBackslash⟩
  rw [readSpelling, if_neg control]
  · rfl
  · exact fun same => noQuote same
  · exact fun _ _ _ _ _ same _ => noBackslash same
  · exact fun _ _ same _ => noBackslash same

private theorem readSpelling_plains {done rest plain : Bytes}
    (plains : ∀ b ∈ plain, 32 ≤ b.toNat ∧ b.toNat ≠ 34 ∧ b.toNat ≠ 92) :
    readSpelling (sofar done) (plain ++ rest) = readSpelling (sofar (plain.reverse ++ done)) rest := by
  induction plain generalizing done with
  | nil => rfl
  | cons b plain ih =>
    obtain ⟨printable, quote, backslash⟩ := plains b List.mem_cons_self
    rw [List.cons_append, readSpelling_plain printable quote backslash,
      ih fun b' listed => plains b' (List.mem_cons_of_mem _ listed), List.reverse_cons,
      List.append_assoc, List.singleton_append]

private theorem readSpelling_letter {done rest : Bytes} {e b : UInt8} (letter : e ≠ 117)
    (stands : escaped? e = some b) :
    readSpelling (sofar done) (92 :: e :: rest) = readSpelling (sofar (b :: done)) rest := by
  rw [readSpelling, stands]
  · rfl
  · exact fun _ _ _ _ _ same => absurd same letter

private theorem bytes_control : ∀ n < 32,
    bytes ('\\' :: 'u' :: (Text.zeroFilled 4 (Text.hexadecimal n)).toList) =
      [92, 117, 48, 48, if n < 16 then 48 else 49,
        (if n % 16 < 10 then 48 + n % 16 else 87 + n % 16).toUInt8] ∧
    hexadecimal? 48 48 (if n < 16 then 48 else 49)
      (if n % 16 < 10 then 48 + n % 16 else 87 + n % 16).toUInt8 = some n := by
  decide +kernel

private theorem readSpelling_control {done rest : Bytes} {c : Char} (control : c.toNat < 32) :
    readSpelling (sofar done)
        (bytes ('\\' :: 'u' :: (Text.zeroFilled 4 (Text.hexadecimal c.toNat)).toList) ++ rest) =
      readSpelling (sofar (c.toNat.toUInt8 :: done)) rest := by
  obtain ⟨written, number⟩ := bytes_control c.toNat control
  have unit : (sofar done).pushUnit c.toNat = sofar (c.toNat.toUInt8 :: done) := by
    have lone : ¬(0xDC00 ≤ c.toNat ∧ c.toNat ≤ 0xDFFF) := fun half => by omega
    have lone' : ¬(0xD800 ≤ c.toNat ∧ c.toNat ≤ 0xDBFF) := fun half => by omega
    rw [Spelling.pushUnit, sofar]
    simp only [lone, lone', if_false]
    rw [Spelling.pushPoint, Char.ofNat_toNat, Text.utf8EncodeChar_of_lt (by omega)]
    rfl
  rw [written]
  simp only [List.cons_append, List.nil_append]
  rw [readSpelling, number]
  exact congrArg (fun s => readSpelling s rest) unit

private theorem readSpelling_escapedChar {done rest : Bytes} (c : Char) :
    readSpelling (sofar done) (bytes (escapedChar c) ++ rest) =
      readSpelling (sofar ((String.utf8EncodeChar c).reverse ++ done)) rest := by
  unfold escapedChar
  split
  · exact readSpelling_letter (by decide) rfl
  · exact readSpelling_letter (by decide) rfl
  · exact readSpelling_letter (by decide) rfl
  · exact readSpelling_letter (by decide) rfl
  · exact readSpelling_letter (by decide) rfl
  · rename_i quote backslash _ _ _
    split
    · rename_i backspace
      obtain rfl : c = Char.ofNat 8 := by rw [← backspace, Char.ofNat_toNat]
      exact readSpelling_letter (by decide) rfl
    · split
      · rename_i feed
        obtain rfl : c = Char.ofNat 12 := by rw [← feed, Char.ofNat_toNat]
        exact readSpelling_letter (by decide) rfl
      · split
        · rename_i control
          rw [Text.utf8EncodeChar_of_lt (by omega)]
          exact readSpelling_control control
        · rename_i printable
          rw [Text.bytes_cons, Text.bytes_nil, List.append_nil]
          refine readSpelling_plains fun b listed => ?_
          by_cases small : c.toNat < 128
          · rw [Text.utf8EncodeChar_of_lt small, List.mem_singleton] at listed
            have number : b.toNat = c.toNat := by
              rw [listed, UInt8.toNat_ofNat']
              omega
            rw [number]
            refine ⟨by omega, fun same => quote ?_, fun same => backslash ?_⟩
            · rw [← Char.ofNat_toNat c, same]
            · rw [← Char.ofNat_toNat c, same]
          · have large := Text.le_of_mem_utf8EncodeChar (Nat.le_of_not_lt small) listed
            omega

private theorem readSpelling_escaped {done rest : Bytes} (text : List Char) :
    readSpelling (sofar done) (bytes (text.flatMap escapedChar) ++ rest) =
      readSpelling (sofar ((bytes text).reverse ++ done)) rest := by
  induction text generalizing done with
  | nil => rfl
  | cons c text ih =>
    rw [List.flatMap_cons, Text.bytes_append, List.append_assoc, readSpelling_escapedChar, ih,
      Text.bytes_cons, List.reverse_append, List.append_assoc]

theorem bytes_escapedText (text : String) : bytes (escapedText text).toList =
    34 :: bytes (text.toList.flatMap escapedChar) ++ [34] := by
  have quote : bytes "\"".toList = [34] := by decide
  have written : (String.ofList (text.toList.flatMap escapedChar)).toList =
      text.toList.flatMap escapedChar := String.toList_ofList
  have split : (escapedText text).toList =
      "\"".toList ++ text.toList.flatMap escapedChar ++ "\"".toList := by
    rw [escapedText, String.toList_append, String.toList_append, written]
  rw [split, Text.bytes_append, Text.bytes_append, quote]
  rfl

theorem readSpelling_escapedText (text : String) (rest : Bytes) :
    readSpelling .start (bytes (text.toList.flatMap escapedChar) ++ 34 :: rest) =
      some (some text, rest) := by
  have start : Spelling.start = sofar [] := rfl
  rw [start, readSpelling_escaped, List.append_nil, readSpelling]
  have finished : (sofar (bytes text.toList).reverse).finish = some text := by
    rw [Spelling.finish, if_pos (by rfl), sofar, List.reverse_reverse, Text.fromUTF8?_bytes,
      String.ofList_toList]
  rw [finished]

end ScriptGraph.Json
