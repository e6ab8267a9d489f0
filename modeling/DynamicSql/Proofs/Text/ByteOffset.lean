import Mathlib

/-!
Places in a text that are counted in bytes. A cut at such a place is no text on both of its sides
unless the place is between two characters; where it is, the cut is one of the characters
(`cutAt?_append`, `exists_append_of_isBoundary`).
-/

namespace DynamicSql.Text

/-- The bytes from one place up to another, if they are a text. -/
def slice? (s : String) (first last : Nat) : Option String :=
  String.fromUTF8? (s.toUTF8.extract first last)

def cutAt? (s : String) (place : Nat) : Option (String × String) := do
  let front ← slice? s 0 place
  let back ← slice? s place s.utf8ByteSize
  return (front, back)

/-- Whether a place is the end of the text or one where a character starts. -/
def isBoundary (s : String) (place : Nat) : Bool :=
  if h : place < s.utf8ByteSize then decide (s.getUTF8Byte ⟨place⟩ h).IsUTF8FirstByte
  else place == s.utf8ByteSize

def bytes (s : String) : List UInt8 :=
  s.toUTF8.data.toList

/-- An upper case letter becomes a lower case one, and all other bytes stay. -/
def lowerByte (b : UInt8) : UInt8 :=
  if 0x41 ≤ b ∧ b ≤ 0x5A then b + 0x20 else b

/-- Whether two texts have the same bytes but for the case of ASCII letters. -/
def sameLetters (a b : String) : Bool :=
  (bytes a).map lowerByte == (bytes b).map lowerByte

variable {s a b : String} {place : Nat}

/-! Cuts -/

theorem fromUTF8?_toUTF8 (s : String) : String.fromUTF8? s.toUTF8 = some s := by
  rw [String.fromUTF8?, String.toUTF8_eq_toByteArray, dif_pos s.isValidUTF8]
  rfl

theorem cutAt?_append (a b : String) : cutAt? (a ++ b) a.utf8ByteSize = some (a, b) := by
  have hfront : slice? (a ++ b) 0 a.utf8ByteSize = some a := by
    rw [slice?, String.toUTF8_eq_toByteArray, String.toByteArray_append,
      ByteArray.extract_append_eq_left String.size_toByteArray.symm]
    exact fromUTF8?_toUTF8 a
  have hback : slice? (a ++ b) a.utf8ByteSize (a ++ b).utf8ByteSize = some b := by
    rw [slice?, String.toUTF8_eq_toByteArray, String.toByteArray_append,
      ByteArray.extract_append_eq_right String.size_toByteArray.symm String.utf8ByteSize_append]
    exact fromUTF8?_toUTF8 b
  rw [cutAt?, hfront, hback]
  rfl

theorem exists_append_of_isBoundary (h : isBoundary s place = true) :
    ∃ a b, s = a ++ b ∧ a.utf8ByteSize = place := by
  have hvalid : (⟨place⟩ : String.Pos.Raw).IsValid s := by
    rw [String.Pos.Raw.isValid_iff_isUTF8FirstByte]
    unfold isBoundary at h
    split at h
    · next hlt => exact .inr ⟨hlt, of_decide_eq_true h⟩
    · exact .inl (String.Pos.Raw.ext (beq_iff_eq.1 h))
  obtain ⟨front, back, hfront, rfl⟩ := hvalid.exists
  refine ⟨String.ofList front, String.ofList back, String.ofList_append, ?_⟩
  have hle := hvalid.le_utf8ByteSize
  rw [← String.size_toByteArray, String.toByteArray_ofList, hfront, ByteArray.size_extract,
    String.size_toByteArray, Nat.sub_zero]
  exact Nat.min_eq_left hle

theorem isBoundary_append (a b : String) : isBoundary (a ++ b) a.utf8ByteSize = true := by
  have hvalid : (⟨a.utf8ByteSize⟩ : String.Pos.Raw).IsValid (a ++ b) :=
    String.Pos.Raw.isValid_rawEndPos.append_right b
  unfold isBoundary
  rw [String.Pos.Raw.isValid_iff_isUTF8FirstByte] at hvalid
  rcases hvalid with heq | ⟨hlt, hbyte⟩
  · have hsize : a.utf8ByteSize = (a ++ b).utf8ByteSize := congrArg String.Pos.Raw.byteIdx heq
    rw [dif_neg (by omega), beq_iff_eq]
    exact hsize
  · exact (dif_pos hlt).trans (decide_eq_true hbyte)

/-- Two ways to cut a text at one place are the same. -/
theorem append_inj_of_size {c d : String} (h : a ++ b = c ++ d)
    (hsize : a.utf8ByteSize = c.utf8ByteSize) : a = c ∧ b = d := by
  have hbytes := congrArg String.toByteArray h
  rw [String.toByteArray_append, String.toByteArray_append] at hbytes
  have hac : a = c := String.toByteArray_inj.1 (ByteArray.append_inj_left hbytes hsize)
  subst hac
  exact ⟨rfl, (String.append_right_inj _).1 h⟩

/-! Letters -/

theorem bytes_ofList (cs : List Char) :
    bytes (String.ofList cs) = cs.flatMap String.utf8EncodeChar := by
  rw [bytes, String.toUTF8_eq_toByteArray, String.toByteArray_ofList, List.utf8Encode,
    List.toList_data_toByteArray]

theorem bytes_inj (h : bytes a = bytes b) : a = b := by
  apply String.toByteArray_inj.1
  exact ByteArray.ext (Array.toList_inj.1 h)

theorem length_bytes (s : String) : (bytes s).length = s.utf8ByteSize :=
  rfl

theorem lowerByte_of_le {b : UInt8} (h : 0x80 ≤ b) : lowerByte b = b := by
  rw [lowerByte, if_neg]
  rw [UInt8.le_iff_toNat_le] at h ⊢
  rintro ⟨-, hle⟩
  rw [UInt8.le_iff_toNat_le] at hle
  revert h hle
  simp
  omega

theorem le_ofNat {n : Nat} (hlo : 128 ≤ n) (hhi : n < 256) : 0x80 ≤ UInt8.ofNat n := by
  rw [UInt8.le_iff_toNat_le, UInt8.toNat_ofNat', Nat.mod_eq_of_lt hhi]
  exact hlo

/-- All bytes of a character outside ASCII are outside it. -/
theorem le_of_mem_utf8EncodeChar {c : Char} (h : 128 ≤ c.toNat) {b : UInt8}
    (hb : b ∈ String.utf8EncodeChar c) : 0x80 ≤ b := by
  have hascii : ¬c.val.toNat ≤ 127 := Nat.not_le.2 h
  simp only [String.utf8EncodeChar, if_neg hascii] at hb
  split at hb
  · simp only [List.mem_cons, List.not_mem_nil, or_false] at hb
    rcases hb with rfl | rfl <;> exact le_ofNat (by omega) (by omega)
  split at hb
  · simp only [List.mem_cons, List.not_mem_nil, or_false] at hb
    rcases hb with rfl | rfl | rfl <;> exact le_ofNat (by omega) (by omega)
  · simp only [List.mem_cons, List.not_mem_nil, or_false] at hb
    rcases hb with rfl | rfl | rfl | rfl <;> exact le_ofNat (by omega) (by omega)

theorem toLower_of_le {c : Char} (h : 128 ≤ c.toNat) : c.toLower = c := by
  rw [Char.toLower, dif_neg]
  rintro ⟨-, hle⟩
  have hnat : c.toNat ≤ 90 := hle
  omega

theorem map_lowerByte_utf8EncodeChar (c : Char) :
    (String.utf8EncodeChar c).map lowerByte = String.utf8EncodeChar c.toLower := by
  by_cases h : c.toNat < 128
  · have hascii : ∀ n < 128, (String.utf8EncodeChar (Char.ofNat n)).map lowerByte =
        String.utf8EncodeChar (Char.ofNat n).toLower := by
      decide
    have hc := hascii c.toNat h
    rwa [Char.ofNat_toNat] at hc
  · have hle := Nat.le_of_not_lt h
    have hbytes : ∀ b ∈ String.utf8EncodeChar c, lowerByte b = b :=
      fun b hb => lowerByte_of_le (le_of_mem_utf8EncodeChar hle hb)
    rw [toLower_of_le hle, List.map_congr_left hbytes, List.map_id']

theorem map_lowerByte_bytes (s : String) :
    (bytes s).map lowerByte = bytes (String.ofList (s.toList.map Char.toLower)) := by
  rw [← String.ofList_toList (s := s), bytes_ofList, bytes_ofList, String.toList_ofList,
    List.map_flatMap, List.flatMap_map]
  simp only [map_lowerByte_utf8EncodeChar]

theorem sameLetters_iff :
    sameLetters a b = true ↔ a.toList.map Char.toLower = b.toList.map Char.toLower := by
  rw [sameLetters, beq_iff_eq, map_lowerByte_bytes, map_lowerByte_bytes]
  constructor
  · intro h
    have hlist := congrArg String.toList (bytes_inj h)
    rwa [String.toList_ofList, String.toList_ofList] at hlist
  · intro h
    rw [h]

theorem utf8ByteSize_eq_of_sameLetters (h : sameLetters a b = true) :
    a.utf8ByteSize = b.utf8ByteSize := by
  rw [sameLetters, beq_iff_eq] at h
  have hlength := congrArg List.length h
  rwa [List.length_map, List.length_map, length_bytes, length_bytes] at hlength

end DynamicSql.Text
