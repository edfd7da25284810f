/-
# Text as UTF-8 bytes

Text in a file is its UTF-8 bytes, and bytes are text only if they are well
formed.  Main statements: text is read back from its bytes (`ofUtf8?_utf8`), and
what is read has those bytes (`utf8_of_ofUtf8?`).
-/

namespace SquareDance
namespace Text

/-- The UTF-8 bytes of a text. -/
def utf8 (s : String) : List UInt8 := s.toUTF8.data.toList

/-- The text of which the bytes are the UTF-8 form. -/
def ofUtf8? (bytes : List UInt8) : Option String := String.fromUTF8? ⟨bytes.toArray⟩

/-- **Text is read back from its bytes.** -/
@[simp] theorem ofUtf8?_utf8 (s : String) : ofUtf8? (utf8 s) = some s := by
  have h : (⟨(utf8 s).toArray⟩ : ByteArray) = s.toByteArray := by
    show (⟨s.toByteArray.data.toList.toArray⟩ : ByteArray) = s.toByteArray
    rw [Array.toArray_toList]
  have hv : (⟨(utf8 s).toArray⟩ : ByteArray).IsValidUTF8 := h ▸ s.isValidUTF8
  rw [ofUtf8?, String.fromUTF8?, dif_pos hv]
  exact congrArg some (String.toByteArray_inj.1 h)

/-- **Text that is read has the bytes it was read from.** -/
theorem utf8_of_ofUtf8? {bytes : List UInt8} {s : String} (h : ofUtf8? bytes = some s) :
    utf8 s = bytes := by
  unfold ofUtf8? String.fromUTF8? at h
  split at h
  · cases h
    show bytes.toArray.toList = bytes
    exact List.toList_toArray
  · cases h

end Text
end SquareDance
