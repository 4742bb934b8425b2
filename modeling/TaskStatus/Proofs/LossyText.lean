import TaskStatus.Proofs.PrintedText
import TaskStatus.Proofs.StringReading
import TaskStatus.Proofs.TextBytes

/-!
# What bytes that are no text are shown as

Bytes that need not be text are shown character by character, and what cannot be completed is shown
as a replacement character. **No control character appears by this**: a sequence of several bytes
that is complete has a value from `80` on, which is that of a character, so the characters below
`80` are bytes by themselves (`Bytes.Legible.printable_lossyChars`).
-/

namespace TaskStatus

namespace Utf8

/-- A number that is that of a character beyond the bytes which are characters by themselves. -/
def LongScalar (n : Nat) : Prop := 0x80 ≤ n ∧ (n < 0xD800 ∨ 0xDFFF < n ∧ n < 0x110000)

/-- The value bits of the bytes that continue a sequence stand behind those in front. -/
theorem foldl_bounds (bs : Bytes) (v : Nat) :
    v * Nat.pow 64 bs.length ≤ bs.foldl (fun v c ↦ v * 64 + c.toNat % 64) v ∧
      bs.foldl (fun v c ↦ v * 64 + c.toNat % 64) v < (v + 1) * Nat.pow 64 bs.length := by
  induction bs generalizing v with
  | nil => simp
  | cons b bs ih =>
    obtain ⟨hlow, hhigh⟩ := ih (v * 64 + b.toNat % 64)
    have hbits : b.toNat % 64 < 64 := Nat.mod_lt _ (by decide)
    have hpow : Nat.pow 64 (b :: bs).length = 64 * Nat.pow 64 bs.length := Nat.pow_succ'
    rw [List.foldl_cons, hpow, ← Nat.mul_assoc, ← Nat.mul_assoc]
    constructor
    · exact Nat.le_trans (Nat.mul_le_mul_right _ (Nat.le_add_right _ _)) hlow
    · refine Nat.lt_of_lt_of_le hhigh (Nat.mul_le_mul_right _ ?_)
      omega

/-- **The table of leading bytes**: with a byte in the range that it asks for, a leading byte leaves
only values of characters, whatever the bytes behind are. -/
theorem longScalar_of_lead?_eq_some {b c : UInt8} {l : Lead} (h : lead? b = some l)
    (htail : l.tail ≠ 0) (hlow : l.low ≤ c) (hhigh : c ≤ l.high) {n : Nat}
    (hn : (l.bits * 64 + c.toNat % 64) * Nat.pow 64 (l.tail - 1) ≤ n)
    (hn' : n < (l.bits * 64 + c.toNat % 64 + 1) * Nat.pow 64 (l.tail - 1)) : LongScalar n := by
  have hb := b.toNat_lt
  have hc := c.toNat_lt
  rw [UInt8.le_iff_toNat_le] at hlow hhigh
  simp only [lead?, UInt8.lt_iff_toNat_lt, ← UInt8.toNat_inj] at h
  rw [LongScalar]
  -- one case for each row of the table, and arithmetic in each
  repeat' split at h
  all_goals cases h
  all_goals simp only [UInt8.reduceToNat, Nat.reduceSub, Nat.pow_eq, Nat.reducePow, Nat.mul_one] at *
  all_goals omega

/-- The first byte of a sequence that is continued lies in the range that is asked for. -/
theorem exists_of_length_continuation {low high : UInt8} {n : Nat} {bs : Bytes}
    (h : (continuation low high (n + 1) bs).length = n + 1) :
    ∃ c more, continuation low high (n + 1) bs = c :: more ∧ low ≤ c ∧ c ≤ high ∧
      more.length = n := by
  cases bs with
  | nil => cases h
  | cons c bs =>
    rw [continuation] at h ⊢
    split at h
    · next hc => exact ⟨c, _, if_pos hc, hc.1, hc.2, Nat.succ.inj h⟩
    · cases h

/-- A byte that stands for itself. -/
theorem eq_of_lead?_eq_some {b : UInt8} {l : Lead} (h : lead? b = some l) (htail : l.tail = 0) :
    b.toNat < 0x80 ∧ l.bits = b.toNat := by
  rw [lead?] at h
  repeat' split at h
  all_goals cases h
  · next hb => exact ⟨UInt8.lt_iff_toNat_lt.1 hb, rfl⟩
  all_goals cases htail

theorem blank_le_ofNat {n : Nat} (h : 0x20 ≤ n)
    (hvalid : n < 0xD800 ∨ 0xDFFF < n ∧ n < 0x110000) : ' ' ≤ Char.ofNat n := by
  have hvalue : (Char.ofNat n).val.toNat = n := Json.toNat_ofNat_of_valid hvalid
  show (32 : UInt32) ≤ (Char.ofNat n).val
  rw [UInt32.le_iff_toNat_le, hvalue]
  exact h

/-- **One character**: it is no control character unless the byte is one. -/
theorem blank_le_head {b : UInt8} (hb : 0x20 ≤ b) (bs : Bytes) : ' ' ≤ (head b bs).1 := by
  have hreplacement : ' ' ≤ replacement := by decide
  rw [head]
  rcases hl : lead? b with - | l
  · exact hreplacement
  · show ' ' ≤ if _ then _ else _
    split
    · next hlength =>
      rcases htail : l.tail with - | n
      · obtain ⟨hlt, hbits⟩ := eq_of_lead?_eq_some hl htail
        rw [continuation, List.foldl_nil, hbits]
        · exact blank_le_ofNat (UInt8.le_iff_toNat_le.1 hb) (by omega)
        · exact nofun
      · rw [htail] at hlength
        obtain ⟨c, more, heq, hlow, hhigh, hmore⟩ := exists_of_length_continuation hlength
        obtain ⟨hvalue, hvalue'⟩ := foldl_bounds more (l.bits * 64 + c.toNat % 64)
        have hscalar : LongScalar (more.foldl (fun v c ↦ v * 64 + c.toNat % 64)
            (l.bits * 64 + c.toNat % 64)) := by
          refine longScalar_of_lead?_eq_some hl (by omega) hlow hhigh ?_ ?_
          · rwa [htail, Nat.add_sub_cancel, ← hmore]
          · rwa [htail, Nat.add_sub_cancel, ← hmore]
        rw [heq, List.foldl_cons]
        exact blank_le_ofNat (Nat.le_trans (by decide) hscalar.1) hscalar.2
    · exact hreplacement

end Utf8

namespace Bytes

/-- None of the bytes is a control character below the blank. -/
def Legible (b : Bytes) : Prop := ∀ x ∈ b, 0x20 ≤ x

instance (b : Bytes) : Decidable b.Legible := List.decidableBAll (0x20 ≤ ·) b

@[simp] theorem legible_append {a b : Bytes} : Legible (a ++ b) ↔ Legible a ∧ Legible b :=
  List.forall_mem_append

/-- **What legible bytes are shown as** has no control characters, whether they are text or not. -/
theorem Legible.printable_lossyChars {b : Bytes} (h : b.Legible) : Json.Printable b.lossyChars := by
  induction b using lossyChars.induct with
  | case1 => simp [lossyChars]
  | case2 x bs c n hhead ih =>
    obtain ⟨hx, hbs⟩ := List.forall_mem_cons.1 h
    have hc : ' ' ≤ c := by
      have hblank := Utf8.blank_le_head hx bs
      rwa [hhead] at hblank
    rw [lossyChars, hhead]
    exact Json.printable_cons.2 ⟨hc, ih fun y hy ↦ hbs y (List.mem_of_mem_drop hy)⟩

/-- A text is legible if it has no control characters. -/
theorem legible_ofText_iff {s : String} : Legible (ofText s) ↔ Json.Printable s.toList := by
  constructor
  · intro h c hc
    refine Char.not_lt.1 fun hlt ↦ ?_
    have hlt' : c.toNat < 32 := hlt
    -- the character would be one of the bytes
    have hbyte : (UInt8.ofNat c.toNat).toNat = c.toNat := by
      rw [UInt8.toNat_ofNat']
      omega
    have hmem : UInt8.ofNat c.toNat ∈ ofText s := by
      refine (mem_ofText_iff (UInt8.lt_iff_toNat_lt.2 ?_)).2 ⟨c, hc, hbyte.symm⟩
      exact Nat.lt_of_lt_of_le (hbyte.symm ▸ hlt') (by decide)
    have hle := UInt8.le_iff_toNat_le.1 (h _ hmem)
    rw [hbyte] at hle
    exact absurd hlt' (Nat.not_lt.2 hle)
  · intro h x hx
    refine UInt8.not_lt.1 fun hlt ↦ ?_
    obtain ⟨c, hc, hn⟩ := (mem_ofText_iff (UInt8.lt_trans hlt (by decide))).1 hx
    have hle : 32 ≤ c.toNat := h c hc
    rw [hn] at hle
    exact absurd (UInt8.lt_iff_toNat_lt.1 hlt) (Nat.not_lt.2 hle)

end Bytes

end TaskStatus
