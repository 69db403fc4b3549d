import HubPack.Text.Utf8

namespace HubPack.Utf8

theorem byte_eq {b : UInt8} {n : Nat} (h : n = b.toNat) : UInt8.ofNat n = b := by
  subst h
  simp

theorem toNat_char {n : Nat} (h : n < 0xd800 ∨ 0xdfff < n ∧ n < 0x110000) :
    (Char.ofNat n).toNat = n := by
  have valid : n.isValidChar := h
  rw [Char.ofNat, dif_pos valid]
  rfl

theorem second_bounds (n : Nat) :
    0x80 ≤ secondLow n ∧ secondHigh n ≤ 0xbf ∧ (n = 0xe0 → secondLow n = 0xa0) ∧
      (n = 0xf0 → secondLow n = 0x90) ∧ (n = 0xed → secondHigh n = 0x9f) ∧
      (n = 0xf4 → secondHigh n = 0x8f) ∧ (n ≠ 0xe0 → n ≠ 0xf0 → secondLow n = 0x80) ∧
      (n ≠ 0xed → n ≠ 0xf4 → secondHigh n = 0xbf) := by
  simp only [secondLow, secondHigh]
  repeat' split
  all_goals omega

theorem continueChar_succ_eq_char {left read low high bits : Nat} {bs rest : Bytes} {c : Char}
    (h : continueChar (left + 1) read low high bits bs = .char c rest) :
    ∃ b tail, bs = b :: tail ∧ low ≤ b.toNat ∧ b.toNat ≤ high ∧
      continueChar left (read + 1) 0x80 0xbf (bits * 64 + (b.toNat - 0x80)) tail
        = .char c rest := by
  cases bs with
  | nil => cases h
  | cons b tail =>
    rw [continueChar] at h
    by_cases within : low ≤ b.toNat ∧ b.toNat ≤ high
    · rw [if_pos within] at h
      exact ⟨b, tail, rfl, within.1, within.2, h⟩
    · rw [if_neg within] at h
      cases h

theorem continueChar_cons {left read low high bits : Nat} {b : UInt8} {bs : Bytes}
    (h : low ≤ b.toNat ∧ b.toNat ≤ high) :
    continueChar (left + 1) read low high bits (b :: bs) =
      continueChar left (read + 1) 0x80 0xbf (bits * 64 + (b.toNat - 0x80)) bs := by
  rw [continueChar, if_pos h]

theorem start_encodeChar (c : Char) (rest : Bytes) :
    ∃ b bs, encodeChar c = b :: bs ∧ start b (bs ++ rest) = .char c rest := by
  have valid : c.toNat < 0xd800 ∨ 0xdfff < c.toNat ∧ c.toNat < 0x110000 := c.valid
  have back : Char.ofNat c.toNat = c := Char.ofNat_toNat c
  generalize hn : c.toNat = n at valid back
  simp only [encodeChar, hn]
  have tail : (UInt8.ofNat (0x80 + n % 64)).toNat = 0x80 + n % 64 :=
    UInt8.toNat_ofNat_of_lt' (show _ < 256 by omega)
  have tail₂ : (UInt8.ofNat (0x80 + n / 64 % 64)).toNat = 0x80 + n / 64 % 64 :=
    UInt8.toNat_ofNat_of_lt' (show _ < 256 by omega)
  have tail₃ : (UInt8.ofNat (0x80 + n / 4096 % 64)).toNat = 0x80 + n / 4096 % 64 :=
    UInt8.toNat_ofNat_of_lt' (show _ < 256 by omega)
  split
  · refine ⟨_, _, rfl, ?_⟩
    simp only [start, UInt8.toNat_ofNat_of_lt' (show n < 256 by omega), List.nil_append]
    rw [if_pos (by omega), back]
  split
  · refine ⟨_, _, rfl, ?_⟩
    have head := UInt8.toNat_ofNat_of_lt' (show 0xc0 + n / 64 < 256 by omega)
    have bounds := second_bounds (0xc0 + n / 64)
    simp only [start, head, List.cons_append, List.nil_append]
    rw [if_neg (by omega), if_neg (by omega), if_pos (by omega), continueChar_cons (by omega),
      continueChar, tail]
    rw [show (0xc0 + n / 64 - 0xc0) * 64 + (0x80 + n % 64 - 0x80) = n by omega, back]
  split
  · refine ⟨_, _, rfl, ?_⟩
    have head := UInt8.toNat_ofNat_of_lt' (show 0xe0 + n / 4096 < 256 by omega)
    have bounds := second_bounds (0xe0 + n / 4096)
    simp only [start, head, List.cons_append, List.nil_append]
    rw [if_neg (by omega), if_neg (by omega), if_neg (by omega), if_pos (by omega),
      continueChar_cons (by omega), continueChar_cons (by omega), continueChar, tail, tail₂]
    rw [show ((0xe0 + n / 4096 - 0xe0) * 64 + (0x80 + n / 64 % 64 - 0x80)) * 64
      + (0x80 + n % 64 - 0x80) = n by omega, back]
  · refine ⟨_, _, rfl, ?_⟩
    have head := UInt8.toNat_ofNat_of_lt' (show 0xf0 + n / 262144 < 256 by omega)
    have bounds := second_bounds (0xf0 + n / 262144)
    simp only [start, head, List.cons_append, List.nil_append]
    rw [if_neg (by omega), if_neg (by omega), if_neg (by omega), if_neg (by omega),
      if_pos (by omega), continueChar_cons (by omega), continueChar_cons (by omega),
      continueChar_cons (by omega), continueChar, tail, tail₂, tail₃]
    rw [show (((0xf0 + n / 262144 - 0xf0) * 64 + (0x80 + n / 4096 % 64 - 0x80)) * 64
      + (0x80 + n / 64 % 64 - 0x80)) * 64 + (0x80 + n % 64 - 0x80) = n by omega, back]

theorem eq_encodeChar_of_start {b : UInt8} {bs rest : Bytes} {c : Char}
    (h : start b bs = .char c rest) : b :: bs = encodeChar c ++ rest := by
  have bounds := second_bounds b.toNat
  simp only [start] at h
  by_cases one : b.toNat < 0x80
  · rw [if_pos one] at h
    cases h
    rw [encodeChar, toNat_char (by omega)]
    simp only [if_pos one, byte_eq rfl, List.cons_append, List.nil_append]
  rw [if_neg one] at h
  by_cases none : b.toNat < 0xc2
  · rw [if_pos none] at h
    cases h
  rw [if_neg none] at h
  by_cases two : b.toNat < 0xe0
  · rw [if_pos two] at h
    obtain ⟨b₁, tail, rfl, low, high, h⟩ := continueChar_succ_eq_char h
    rw [continueChar, Start.char.injEq] at h
    obtain ⟨rfl, rfl⟩ := h
    rw [encodeChar, toNat_char (by omega)]
    rw [if_neg (by omega), if_pos (by omega), byte_eq (b := b) (by omega),
      byte_eq (b := b₁) (by omega)]
    rfl
  rw [if_neg two] at h
  by_cases three : b.toNat < 0xf0
  · rw [if_pos three] at h
    obtain ⟨b₁, tail, rfl, low, high, h⟩ := continueChar_succ_eq_char h
    obtain ⟨b₂, tail, rfl, low₂, high₂, h⟩ := continueChar_succ_eq_char h
    rw [continueChar, Start.char.injEq] at h
    obtain ⟨rfl, rfl⟩ := h
    rw [encodeChar, toNat_char (by omega)]
    rw [if_neg (by omega), if_neg (by omega), if_pos (by omega), byte_eq (b := b) (by omega),
      byte_eq (b := b₁) (by omega), byte_eq (b := b₂) (by omega)]
    rfl
  rw [if_neg three] at h
  by_cases four : b.toNat < 0xf5
  · rw [if_pos four] at h
    obtain ⟨b₁, tail, rfl, low, high, h⟩ := continueChar_succ_eq_char h
    obtain ⟨b₂, tail, rfl, low₂, high₂, h⟩ := continueChar_succ_eq_char h
    obtain ⟨b₃, tail, rfl, low₃, high₃, h⟩ := continueChar_succ_eq_char h
    rw [continueChar, Start.char.injEq] at h
    obtain ⟨rfl, rfl⟩ := h
    rw [encodeChar, toNat_char (by omega)]
    rw [if_neg (by omega), if_neg (by omega), if_neg (by omega), byte_eq (b := b) (by omega),
      byte_eq (b := b₁) (by omega), byte_eq (b := b₂) (by omega), byte_eq (b := b₃) (by omega)]
    rfl
  · rw [if_neg four] at h
    cases h

theorem decodeFrom_encode (index : Nat) (cs : List Char) :
    decodeFrom index (cs.flatMap encodeChar) = .ok cs := by
  induction cs generalizing index with
  | nil => simp [decodeFrom]
  | cons c cs ih =>
    obtain ⟨b, bs, encoded, started⟩ := start_encodeChar c (cs.flatMap encodeChar)
    rw [List.flatMap_cons, encoded, List.cons_append, decodeFrom]
    split
    · rename_i h
      rw [started] at h
      cases h
      rw [ih]
      rfl
    · rename_i h
      rw [started] at h
      cases h
    · rename_i h
      rw [started] at h
      cases h

theorem decode_encode (s : String) : decode (encode s) = .ok s := by
  rw [decode, encode, decodeFrom_encode]
  simp [Functor.map, Except.map]

theorem eq_encode_of_decodeFrom {index : Nat} {bs : Bytes} {cs : List Char}
    (h : decodeFrom index bs = .ok cs) : bs = cs.flatMap encodeChar := by
  fun_induction decodeFrom index bs generalizing cs with
  | case1 =>
    cases h
    rfl
  | case2 index b bs c rest started _ ih =>
    cases hr : decodeFrom (index + c.utf8Size) rest with
    | error e =>
      rw [hr] at h
      cases h
    | ok tail =>
      rw [hr] at h
      cases h
      rw [eq_encodeChar_of_start started, List.flatMap_cons, ih hr]
  | case3 => cases h
  | case4 => cases h

theorem eq_encode_of_decode {bs : Bytes} {s : String} (h : decode bs = .ok s) : bs = encode s := by
  rw [decode] at h
  cases hr : decodeFrom 0 bs with
  | error e =>
    rw [hr] at h
    cases h
  | ok cs =>
    rw [hr] at h
    cases h
    rw [encode, String.toList_ofList]
    exact eq_encode_of_decodeFrom hr

theorem decode_eq_ok_iff {bs : Bytes} {s : String} : decode bs = .ok s ↔ bs = encode s :=
  ⟨eq_encode_of_decode, fun h => h ▸ decode_encode s⟩

theorem encodeChar_eq_utf8EncodeChar (c : Char) : encodeChar c = String.utf8EncodeChar c := by
  have valid : c.toNat < 0xd800 ∨ 0xdfff < c.toNat ∧ c.toNat < 0x110000 := c.valid
  have number : c.val.toNat = c.toNat := rfl
  rw [encodeChar, String.utf8EncodeChar, number]
  generalize c.toNat = n at valid
  have one : n ≤ 127 ↔ n < 0x80 := by omega
  have two : n ≤ 2047 ↔ n < 0x800 := by omega
  have three : n ≤ 65535 ↔ n < 0x10000 := by omega
  simp only [one, two, three, Nat.add_comm 0x80]
  split
  · rfl
  split
  · have first : n / 64 % 32 + 192 = 0xc0 + n / 64 := by omega
    rw [first]
  split
  · have first : n / 4096 % 16 + 224 = 0xe0 + n / 4096 := by omega
    rw [first]
  · have first : n / 262144 % 8 + 240 = 0xf0 + n / 262144 := by omega
    rw [first]

/-- Text is written as the bytes of the string that holds it. -/
theorem encode_eq_toUTF8 (s : String) : encode s = s.toUTF8.data.toList := by
  have each : encodeChar = String.utf8EncodeChar := funext encodeChar_eq_utf8EncodeChar
  have bytes : s.toUTF8 = s.toList.utf8Encode := String.utf8Encode_toList.symm
  rw [bytes, encode, each, List.utf8Encode, List.toList_data_toByteArray]

end HubPack.Utf8
