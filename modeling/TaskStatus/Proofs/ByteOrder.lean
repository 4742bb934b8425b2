import TaskStatus.Proofs.TextBytes

/-!
# The order of texts is that of their bytes

Texts are ordered by their characters and byte strings by their bytes, both by the first place at
which two of them differ. Encoding a text keeps this order (`ofText_lt_ofText_iff`): a lesser
character has lesser bytes (`utf8EncodeChar_append_lt`), since longer sequences begin with greater
bytes, and the bytes of sequences of one length are digits of their characters.
-/

namespace TaskStatus.Bytes

theorem ofNat_lt_ofNat_iff (m n : Nat) :
    UInt8.ofNat m < UInt8.ofNat n ↔ m % 256 < n % 256 := by
  rw [UInt8.lt_iff_toNat_lt, UInt8.toNat_ofNat', UInt8.toNat_ofNat']

theorem ofNat_eq_ofNat_iff (m n : Nat) :
    UInt8.ofNat m = UInt8.ofNat n ↔ m % 256 = n % 256 := by
  rw [← UInt8.toNat_inj, UInt8.toNat_ofNat', UInt8.toNat_ofNat']

theorem toNat_lt_of_char (c : Char) : c.val.toNat < 0x110000 := by
  have hvalid : c.val.toNat < 0xD800 ∨ 0xDFFF < c.val.toNat ∧ c.val.toNat < 0x110000 := c.valid
  omega

/-- Of two numbers the lesser one has the lesser digit at the first place at which they differ. -/
theorem div_lt_div_or_mod_lt_mod {m n : Nat} (h : m < n) (k : Nat) :
    m / k < n / k ∨ m / k = n / k ∧ m % k < n % k := by
  rcases Nat.lt_or_eq_of_le (Nat.div_le_div_right (c := k) (Nat.le_of_lt h)) with hlt | heq
  · exact .inl hlt
  · refine .inr ⟨heq, ?_⟩
    have hm := Nat.div_add_mod m k
    have hn := Nat.div_add_mod n k
    rw [heq] at hm
    omega

/-- **A lesser character has lesser bytes**, whatever follows them: no sequence begins another. -/
theorem utf8EncodeChar_append_lt {c d : Char} (h : c < d) (x y : Bytes) :
    String.utf8EncodeChar c ++ x < String.utf8EncodeChar d ++ y := by
  have hlt : c.val.toNat < d.val.toNat := h
  have hmax := toNat_lt_of_char d
  simp only [String.utf8EncodeChar]
  -- one case for each length of the lesser character, in it one for each length of the other
  split
  · split
    · simp only [List.cons_append, List.cons_lt_cons_iff, ofNat_lt_ofNat_iff]
      omega
    · split
      · simp only [List.cons_append, List.cons_lt_cons_iff, ofNat_lt_ofNat_iff]
        omega
      · split <;> simp only [List.cons_append, List.cons_lt_cons_iff, ofNat_lt_ofNat_iff] <;> omega
  · rw [if_neg (by omega : ¬ d.val.toNat ≤ 127)]
    split
    · split
      · simp only [List.cons_append, List.cons_lt_cons_iff, ofNat_lt_ofNat_iff, ofNat_eq_ofNat_iff]
        omega
      · split <;> simp only [List.cons_append, List.cons_lt_cons_iff, ofNat_lt_ofNat_iff] <;> omega
    · rw [if_neg (by omega : ¬ d.val.toNat ≤ 2047)]
      split
      · split <;>
          simp only [List.cons_append, List.cons_lt_cons_iff, ofNat_lt_ofNat_iff,
            ofNat_eq_ofNat_iff] <;> omega
      · rw [if_neg (by omega : ¬ d.val.toNat ≤ 65535)]
        simp only [List.cons_append, List.cons_lt_cons_iff, ofNat_lt_ofNat_iff, ofNat_eq_ofNat_iff]
        rcases div_lt_div_or_mod_lt_mod hlt 64 with hhigh | ⟨heq, hlow⟩
        · rcases div_lt_div_or_mod_lt_mod hhigh 4096 with h | ⟨h, h'⟩ <;> omega
        · omega

theorem flatMap_utf8EncodeChar_lt {cs ds : List Char} (h : cs < ds) :
    cs.flatMap String.utf8EncodeChar < ds.flatMap String.utf8EncodeChar := by
  induction cs generalizing ds with
  | nil =>
    cases ds with
    | nil => exact absurd h (List.not_lt_nil [])
    | cons d ds =>
      obtain ⟨b, bs, hd⟩ := List.exists_cons_of_ne_nil (String.utf8EncodeChar_ne_nil (c := d))
      rw [List.flatMap_nil, List.flatMap_cons, hd]
      exact List.nil_lt_cons b _
  | cons c cs ih =>
    cases ds with
    | nil => exact absurd h (List.not_lt_nil _)
    | cons d ds =>
      rw [List.flatMap_cons, List.flatMap_cons]
      rcases List.cons_lt_cons_iff.1 h with hlt | ⟨rfl, hrest⟩
      · exact utf8EncodeChar_append_lt hlt _ _
      · exact List.append_left_lt (ih hrest)

/-- **Texts are ordered as their bytes are.** -/
theorem ofText_lt_ofText_iff {s t : String} : ofText s < ofText t ↔ s < t := by
  have hmono {s t : String} (h : s < t) : ofText s < ofText t := by
    rw [ofText_eq_flatMap, ofText_eq_flatMap]
    exact flatMap_utf8EncodeChar_lt h
  refine ⟨fun h ↦ ?_, hmono⟩
  by_cases heq : s = t
  · rw [heq] at h
    exact absurd h (List.lt_irrefl _)
  · refine String.not_le.1 fun hle ↦ ?_
    exact List.lt_asymm h (hmono (Std.lt_of_le_of_ne hle (Ne.symm heq)))

end TaskStatus.Bytes
