import TaskStatus.Text

/-!
# The bytes of a text

The bytes of a text are those of its characters, one after the other. A byte below `80` is a
character of its own: all bytes of a longer sequence lie above. So a line feed, or any other
character of one byte, is found among the bytes exactly where it is found among the characters
(`mem_ofText_iff`).
-/

namespace TaskStatus.Bytes

theorem ofText_eq_flatMap (s : String) : ofText s = s.toList.flatMap String.utf8EncodeChar := by
  have h : s.toByteArray = (s.toList.flatMap String.utf8EncodeChar).toByteArray := by
    rw [← String.utf8Encode_toList]
    rfl
  rw [ofText, h]
  simp

theorem ofText_append (s t : String) : ofText (s ++ t) = ofText s ++ ofText t := by
  rw [ofText_eq_flatMap, ofText_eq_flatMap, ofText_eq_flatMap, String.toList_append,
    List.flatMap_append]

/-- The text that bytes spell has these bytes. -/
theorem text?_eq_some_iff {b : Bytes} {s : String} : b.text? = some s ↔ b = ofText s := by
  constructor
  · intro h
    rw [text?, String.fromUTF8?] at h
    split at h
    · obtain rfl := Option.some.inj h
      rfl
    · cases h
  · rintro rfl
    exact text?_ofText s

/-- **Bytes that begin a text** and are text themselves begin it with their characters: a sequence of
bytes for one character is not the beginning of that for another. -/
theorem toList_isPrefix_of_ofText_isPrefix {s t : String} (h : ofText s <+: ofText t) :
    s.toList <+: t.toList := by
  obtain ⟨rest, hrest⟩ := h
  refine List.isPrefix_of_utf8Encode_append_eq_utf8Encode ⟨rest.toArray⟩ ?_
  rw [String.utf8Encode_toList, String.utf8Encode_toList]
  refine ByteArray.ext (Array.toList_inj.1 ?_)
  rw [ByteArray.data_append, Array.toList_append]
  exact hrest

/-- **A byte below `80`** stands for the character with this number, and in no other sequence. -/
theorem mem_utf8EncodeChar_iff {b : UInt8} (hb : b < 0x80) {c : Char} :
    b ∈ String.utf8EncodeChar c ↔ c.toNat = b.toNat := by
  have hb' : b.toNat < 128 := hb
  have hne (n : Nat) (hn : 128 ≤ n % 256) : b ≠ UInt8.ofNat n := by
    rintro rfl
    rw [UInt8.toNat_ofNat'] at hb'
    omega
  show b ∈ String.utf8EncodeChar c ↔ c.val.toNat = b.toNat
  simp only [String.utf8EncodeChar]
  split
  · next hv =>
    rw [List.mem_singleton, ← UInt8.toNat_inj, UInt8.toNat_ofNat']
    omega
  · next hv =>
    -- all bytes of a longer sequence carry the bit that one below `80` lacks
    refine iff_of_false ?_ (by omega)
    split
    · simp only [List.mem_cons, List.not_mem_nil, or_false, not_or]
      exact ⟨hne _ (by omega), hne _ (by omega)⟩
    · split
      · simp only [List.mem_cons, List.not_mem_nil, or_false, not_or]
        exact ⟨hne _ (by omega), hne _ (by omega), hne _ (by omega)⟩
      · simp only [List.mem_cons, List.not_mem_nil, or_false, not_or]
        exact ⟨hne _ (by omega), hne _ (by omega), hne _ (by omega), hne _ (by omega)⟩

theorem mem_ofText_iff {b : UInt8} (hb : b < 0x80) {s : String} :
    b ∈ ofText s ↔ ∃ c ∈ s.toList, c.toNat = b.toNat := by
  rw [ofText_eq_flatMap, List.mem_flatMap]
  simp only [mem_utf8EncodeChar_iff hb]

/-- The byte of a line feed. -/
def newline : UInt8 := 0x0A

theorem newline_mem_ofText_iff {s : String} : newline ∈ ofText s ↔ '\n' ∈ s.toList := by
  rw [mem_ofText_iff (by decide)]
  constructor
  · rintro ⟨c, hc, hn⟩
    obtain rfl : c = '\n' := Char.toNat_inj.1 hn
    exact hc
  · exact fun h ↦ ⟨_, h, rfl⟩

end TaskStatus.Bytes
