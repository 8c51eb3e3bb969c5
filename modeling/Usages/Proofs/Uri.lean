/-
The identifier of an absolute path names that path, and so no two paths have the same one. Escaping
goes character by character over the bytes of the path; reading an identifier takes the bytes out of
the escapes and then the characters out of the bytes.
-/
import Usages.Uri

namespace Usages

namespace Text

/-! ## Characters from their bytes -/

theorem isContinuation_add {n : Nat} (h : n < 64) : isContinuation (0x80 + n) = true := by
  simp only [isContinuation, Bool.and_eq_true, decide_eq_true_eq]
  omega

theorem decodeFirst_one {n : Nat} (h : n < 0x80) (rest : List Nat) :
    decodeFirst n rest = (Char.ofNat n, 1) := by
  simp only [decodeFirst, if_pos h]

theorem decodeFirst_two {n : Nat} (hlow : 0x80 ≤ n) (hhigh : n < 0x800) (rest : List Nat) :
    decodeFirst (0xC0 + n / 64) ((0x80 + n % 64) :: rest) = (Char.ofNat n, 2) := by
  have hone : ¬0xC0 + n / 64 < 0x80 := by omega
  have htwo : (decide (0xC2 ≤ 0xC0 + n / 64) && decide (0xC0 + n / 64 < 0xE0)) = true := by
    simp only [Bool.and_eq_true, decide_eq_true_eq]
    omega
  have hcode : (0xC0 + n / 64 - 0xC0) * 64 + (0x80 + n % 64 - 0x80) = n := by omega
  simp only [decodeFirst, if_neg hone, if_pos htwo,
    if_pos (isContinuation_add (Nat.mod_lt n (by decide))), hcode]

/-- The bytes of three lead to the character unless it is a surrogate, which no character is. -/
theorem decodeFirst_three {n : Nat} (hlow : 0x800 ≤ n) (hhigh : n < 0x10000)
    (hvalid : n < 0xD800 ∨ 0xDFFF < n) (rest : List Nat) :
    decodeFirst (0xE0 + n / 4096) ((0x80 + n / 64 % 64) :: (0x80 + n % 64) :: rest) =
      (Char.ofNat n, 3) := by
  have hone : ¬0xE0 + n / 4096 < 0x80 := by omega
  have htwo : ¬(decide (0xC2 ≤ 0xE0 + n / 4096) && decide (0xE0 + n / 4096 < 0xE0)) = true := by
    simp only [Bool.and_eq_true, decide_eq_true_eq]
    omega
  have hthree : (decide (0xE0 ≤ 0xE0 + n / 4096) && decide (0xE0 + n / 4096 < 0xF0)) = true := by
    simp only [Bool.and_eq_true, decide_eq_true_eq]
    omega
  have hsecond : isSecondOfThree (0xE0 + n / 4096) (0x80 + n / 64 % 64) = true := by
    simp only [isSecondOfThree, isContinuation_add (Nat.mod_lt _ (by decide : 0 < 64)),
      Bool.true_and, Bool.and_eq_true, Bool.or_eq_true, bne_iff_ne, decide_eq_true_eq]
    omega
  have hcode : ((0xE0 + n / 4096 - 0xE0) * 64 + (0x80 + n / 64 % 64 - 0x80)) * 64 +
      (0x80 + n % 64 - 0x80) = n := by omega
  simp only [decodeFirst, if_neg hone, if_neg htwo, if_pos hthree, hsecond,
    isContinuation_add (Nat.mod_lt n (by decide : 0 < 64)), Bool.not_true, Bool.false_eq_true,
    if_false, hcode]

theorem decodeFirst_four {n : Nat} (hlow : 0x10000 ≤ n) (hhigh : n < 0x110000) (rest : List Nat) :
    decodeFirst (0xF0 + n / 262144)
      ((0x80 + n / 4096 % 64) :: (0x80 + n / 64 % 64) :: (0x80 + n % 64) :: rest) =
        (Char.ofNat n, 4) := by
  have hone : ¬0xF0 + n / 262144 < 0x80 := by omega
  have htwo : ¬(decide (0xC2 ≤ 0xF0 + n / 262144) &&
      decide (0xF0 + n / 262144 < 0xE0)) = true := by
    simp only [Bool.and_eq_true, decide_eq_true_eq]
    omega
  have hthree : ¬(decide (0xE0 ≤ 0xF0 + n / 262144) &&
      decide (0xF0 + n / 262144 < 0xF0)) = true := by
    simp only [Bool.and_eq_true, decide_eq_true_eq]
    omega
  have hfour : (decide (0xF0 ≤ 0xF0 + n / 262144) && decide (0xF0 + n / 262144 < 0xF5)) = true := by
    simp only [Bool.and_eq_true, decide_eq_true_eq]
    omega
  have hsecond : isSecondOfFour (0xF0 + n / 262144) (0x80 + n / 4096 % 64) = true := by
    simp only [isSecondOfFour, isContinuation_add (Nat.mod_lt _ (by decide : 0 < 64)),
      Bool.true_and, Bool.and_eq_true, Bool.or_eq_true, bne_iff_ne, decide_eq_true_eq]
    omega
  have hcode : (((0xF0 + n / 262144 - 0xF0) * 64 + (0x80 + n / 4096 % 64 - 0x80)) * 64 +
      (0x80 + n / 64 % 64 - 0x80)) * 64 + (0x80 + n % 64 - 0x80) = n := by omega
  simp only [decodeFirst, if_neg hone, if_neg htwo, if_neg hthree, if_pos hfour, hsecond,
    isContinuation_add (Nat.mod_lt _ (by decide : 0 < 64)), Bool.not_true, Bool.false_eq_true,
    if_false, hcode]

theorem decodeLossy_utf8Bytes (c : Char) (rest : List Nat) :
    decodeLossy (utf8Bytes c ++ rest) = c :: decodeLossy rest := by
  have hvalid : c.toNat < 0xD800 ∨ 0xDFFF < c.toNat ∧ c.toNat < 0x110000 := c.valid
  simp only [utf8Bytes]
  split
  next h =>
    rw [List.cons_append, decodeLossy, decodeFirst_one h, Char.ofNat_toNat]
    rfl
  split
  next hlow hhigh =>
    rw [List.cons_append, List.cons_append, decodeLossy, decodeFirst_two (by omega) hhigh,
      Char.ofNat_toNat]
    rfl
  split
  next hlow hhigh =>
    simp only [List.cons_append, List.nil_append]
    rw [decodeLossy, decodeFirst_three (by omega) hhigh (by omega), Char.ofNat_toNat]
    rfl
  next hlow =>
    simp only [List.cons_append, List.nil_append]
    rw [decodeLossy, decodeFirst_four (by omega) (by omega), Char.ofNat_toNat]
    rfl

theorem decodeLossy_flatMap_utf8Bytes (text : List Char) :
    decodeLossy (text.flatMap utf8Bytes) = text := by
  induction text with
  | nil => rw [List.flatMap_nil, decodeLossy]
  | cons c rest ih => rw [List.flatMap_cons, decodeLossy_utf8Bytes, ih]

theorem lt_of_mem_utf8Bytes {c : Char} {byte : Nat} (h : byte ∈ utf8Bytes c) : byte < 256 := by
  have hvalid : c.toNat < 0xD800 ∨ 0xDFFF < c.toNat ∧ c.toNat < 0x110000 := c.valid
  simp only [utf8Bytes] at h
  split at h
  · simp only [List.mem_cons, List.not_mem_nil, or_false] at h
    omega
  split at h
  · simp only [List.mem_cons, List.not_mem_nil, or_false] at h
    omega
  split at h
  · simp only [List.mem_cons, List.not_mem_nil, or_false] at h
    omega
  · simp only [List.mem_cons, List.not_mem_nil, or_false] at h
    omega

end Text

namespace Uri

/-! ## Bytes from their escapes -/

theorem hexValue?_upperHex {n : Nat} (h : n < 16) : hexValue? (upperHex n) = some n := by
  have hall : ∀ i : Fin 16, hexValue? (upperHex i) = some i.val := by decide
  exact hall ⟨n, h⟩

theorem bytes_escaped {byte : Nat} (h : byte < 256) (rest : List Char) :
    bytes ('%' :: upperHex (byte / 16) :: upperHex (byte % 16) :: rest) = byte :: bytes rest := by
  have hbyte : byte / 16 * 16 + byte % 16 = byte := by omega
  rw [bytes, hexValue?_upperHex (by omega), hexValue?_upperHex (by omega)]
  simp only [hbyte]

theorem bytes_flatMap_escaped {codes : List Nat} (h : ∀ byte ∈ codes, byte < 256)
    (rest : List Char) :
    bytes ((codes.flatMap fun byte => ['%', upperHex (byte / 16), upperHex (byte % 16)]) ++ rest) =
      codes ++ bytes rest := by
  induction codes with
  | nil => rfl
  | cons byte codes ih =>
    simp only [List.flatMap_cons, List.cons_append, List.nil_append]
    rw [bytes_escaped (h byte List.mem_cons_self),
      ih fun other hother => h other (List.mem_cons_of_mem _ hother)]

theorem bytes_cons_of_ne {c : Char} (h : c ≠ '%') (rest : List Char) :
    bytes (c :: rest) = Text.utf8Bytes c ++ bytes rest := by
  rw [bytes]
  intro _ _ _ hc
  exact absurd hc h

theorem bytes_escape (c : Char) (rest : List Char) :
    bytes (escape c ++ rest) = Text.utf8Bytes c ++ bytes rest := by
  rw [escape]
  split
  next hplain =>
    refine bytes_cons_of_ne ?_ rest
    rintro rfl
    exact absurd hplain (by decide)
  next => exact bytes_flatMap_escaped (fun byte => Text.lt_of_mem_utf8Bytes) rest

theorem bytes_flatMap_escape (path : List Char) :
    bytes (path.flatMap escape) = path.flatMap Text.utf8Bytes := by
  induction path with
  | nil => rfl
  | cons c rest ih => rw [List.flatMap_cons, bytes_escape, ih, List.flatMap_cons]

/-- The identifier of a file names the file. -/
theorem file?_ofAbsolutePath {path : String} (h : Path.isAbsolute path = true) :
    (ofAbsolutePath path).file? = some path := by
  have hpath : Text.decodeLossy (bytes (ofAbsolutePath path).path.toList) = path.toList := by
    rw [ofAbsolutePath, String.toList_ofList, bytes_flatMap_escape,
      Text.decodeLossy_flatMap_utf8Bytes]
  rw [file?, hpath]
  split
  next hnil =>
    rw [Path.isAbsolute, hnil] at h
    cases h
  next => rw [String.ofList_toList]

end Uri

end Usages
