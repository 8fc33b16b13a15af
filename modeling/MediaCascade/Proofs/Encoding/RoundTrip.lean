import MediaCascade.Encoding.Basic
import MediaCascade.Proofs.Failing

/-!
# What is encoded is decoded again

An encoding has the characters below its limit (`Encoding.limit`): it writes the texts of these
characters and no others, and it reads no others.

* `Encoding.decode_encode`: what an encoding writes, it reads again.
* `Encoding.exists_encode_iff`: the texts that an encoding can write.
* `Encoding.lt_limit_of_mem_decode`: the characters that it reads.

Each of the two coders of several bytes is taken character by character: the reader that comes to
the bytes of a character is, behind them, between characters again, and has read the character.
-/

namespace MediaCascade

/-- The character of a byte has the number of the byte. -/
theorem toNat_ofNat_byte (b : UInt8) : (Char.ofNat b.toNat).toNat = b.toNat := by
  have hvalid : b.toNat.isValidChar := .inl (Nat.lt_trans b.toNat_lt (by decide))
  rw [Char.ofNat, dif_pos hvalid]
  rfl

/-- The code points, without the surrogates. -/
theorem codePoint_range (c : Char) : c.toNat < 0xD800 ∨ 0xDFFF < c.toNat ∧ c.toNat < 0x110000 :=
  c.valid

theorem codePoint_lt (c : Char) : c.toNat < 0x110000 := by
  have hrange := codePoint_range c
  omega

/-! ## 1. UTF-8 -/

namespace Utf8

section Continuation

variable {position start value : Nat} {lead : UInt8} {tail : Bytes} {n : Nat} (hn : n < 64)
include hn

/-- The last byte of a character. -/
theorem decodeFrom_last (rest : Bytes) :
    decodeFrom position (some ⟨start, lead, tail, value, 0, 0x80, 0xBF⟩)
        (UInt8.ofNat (0x80 + n) :: rest) =
      (decodeFrom (position + 1) none rest).map (Char.ofNat (value * 64 + n) :: ·) := by
  have hrange : 0x80 ≤ 0x80 + n ∧ 0x80 + n ≤ 0xBF := by omega
  have hbyte : 0x80 + n < 256 := by omega
  rw [decodeFrom, UInt8.toNat_ofNat_of_lt' hbyte, if_pos hrange, Nat.add_sub_cancel_left]

/-- Any other byte that goes on with a character. -/
theorem decodeFrom_next {missing low high : Nat} (hlow : low ≤ 0x80 + n) (hhigh : 0x80 + n ≤ high)
    (rest : Bytes) :
    decodeFrom position (some ⟨start, lead, tail, value, missing + 1, low, high⟩)
        (UInt8.ofNat (0x80 + n) :: rest) =
      decodeFrom (position + 1) (some ⟨start, lead, tail ++ [UInt8.ofNat (0x80 + n)],
        value * 64 + n, missing, 0x80, 0xBF⟩) rest := by
  have hbyte : 0x80 + n < 256 := by omega
  rw [decodeFrom, UInt8.toNat_ofNat_of_lt' hbyte, if_pos ⟨hlow, hhigh⟩, Nat.add_sub_cancel_left]

end Continuation

/-- The lead byte of a character. -/
theorem decodeFrom_lead {position : Nat} {b : UInt8} {p : Pending}
    (h : Pending.ofLead? position b = some p) (rest : Bytes) :
    decodeFrom position none (b :: rest) = decodeFrom (position + 1) (some p) rest := by
  have hb : ¬b.toNat < 0x80 := by
    intro hlt
    simp only [Pending.ofLead?] at h
    rw [if_neg (by omega), if_neg (by omega), if_neg (by omega), if_neg (by omega),
      if_neg (by omega), if_neg (by omega), if_neg (by omega)] at h
    cases h
  rw [decodeFrom, if_neg hb, h]

section Lead

variable (position : Nat) {n : Nat}

/-- The lead byte of a character of two bytes. -/
theorem ofLead?_two (hlow : 0x80 ≤ n) (hhigh : n < 0x800) :
    Pending.ofLead? position (UInt8.ofNat (0xC0 + n / 64)) =
      some ⟨position, UInt8.ofNat (0xC0 + n / 64), [], n / 64, 0, 0x80, 0xBF⟩ := by
  simp only [Pending.ofLead?, UInt8.toNat_ofNat_of_lt' (show 0xC0 + n / 64 < 256 by omega)]
  rw [if_pos (by omega), Nat.add_sub_cancel_left]

/-- The lead byte of a character of three bytes. The byte behind it is one that may come. -/
theorem exists_ofLead?_three (hlow : 0x800 ≤ n) (hhigh : n < 0x10000)
    (hsurrogate : n < 0xD800 ∨ 0xDFFF < n) :
    ∃ low high, low ≤ 0x80 + n / 64 % 64 ∧ 0x80 + n / 64 % 64 ≤ high ∧
      Pending.ofLead? position (UInt8.ofNat (0xE0 + n / 4096)) =
        some ⟨position, UInt8.ofNat (0xE0 + n / 4096), [], n / 4096, 1, low, high⟩ := by
  simp only [Pending.ofLead?, UInt8.toNat_ofNat_of_lt' (show 0xE0 + n / 4096 < 256 by omega)]
  rw [if_neg (by omega), Nat.add_sub_cancel_left]
  by_cases hE0 : 0xE0 + n / 4096 = 0xE0
  · rw [if_pos hE0]
    exact ⟨0xA0, 0xBF, by omega, by omega, rfl⟩
  rw [if_neg hE0]
  by_cases hED : 0xE0 + n / 4096 = 0xED
  · rw [if_pos hED]
    exact ⟨0x80, 0x9F, by omega, by omega, rfl⟩
  · rw [if_neg hED, if_pos (by omega)]
    exact ⟨0x80, 0xBF, by omega, by omega, rfl⟩

/-- The lead byte of a character of four bytes. -/
theorem exists_ofLead?_four (hlow : 0x10000 ≤ n) (hhigh : n < 0x110000) :
    ∃ low high, low ≤ 0x80 + n / 4096 % 64 ∧ 0x80 + n / 4096 % 64 ≤ high ∧
      Pending.ofLead? position (UInt8.ofNat (0xF0 + n / 262144)) =
        some ⟨position, UInt8.ofNat (0xF0 + n / 262144), [], n / 262144, 2, low, high⟩ := by
  simp only [Pending.ofLead?, UInt8.toNat_ofNat_of_lt' (show 0xF0 + n / 262144 < 256 by omega)]
  rw [if_neg (by omega), if_neg (by omega), if_neg (by omega), if_neg (by omega),
    Nat.add_sub_cancel_left]
  by_cases hF0 : 0xF0 + n / 262144 = 0xF0
  · rw [if_pos hF0]
    exact ⟨0x90, 0xBF, by omega, by omega, rfl⟩
  rw [if_neg hF0]
  by_cases hF4 : 0xF0 + n / 262144 = 0xF4
  · rw [if_pos hF4]
    exact ⟨0x80, 0x8F, by omega, by omega, rfl⟩
  · rw [if_neg hF4, if_pos (by omega)]
    exact ⟨0x80, 0xBF, by omega, by omega, rfl⟩

end Lead

/-- **The bytes of a character are read as the character**, whatever comes behind them. -/
theorem decodeFrom_encodeChar (position : Nat) (c : Char) (rest : Bytes) :
    decodeFrom position none (encodeChar c ++ rest) =
      (decodeFrom (position + (encodeChar c).length) none rest).map (c :: ·) := by
  have hrange := codePoint_range c
  have hread : ∀ n, n = c.toNat → Char.ofNat n = c := fun n hn => hn ▸ Char.ofNat_toNat c
  unfold encodeChar
  simp only
  split
  · next hone =>
    have hbyte : c.toNat < 256 := by omega
    rw [List.singleton_append, decodeFrom, UInt8.toNat_ofNat_of_lt' hbyte, if_pos hone, hread _ rfl]
    rfl
  split
  · next hone htwo =>
    have hlead := ofLead?_two position (Nat.le_of_not_lt hone) htwo
    rw [List.cons_append, decodeFrom_lead hlead, List.singleton_append,
      decodeFrom_last (by omega), hread _ (by omega)]
    rfl
  split
  · next htwo hthree =>
    obtain ⟨low, high, hlow, hhigh, hlead⟩ :=
      exists_ofLead?_three position (Nat.le_of_not_lt htwo) hthree (by omega)
    rw [List.cons_append, decodeFrom_lead hlead, List.cons_append,
      decodeFrom_next (by omega) hlow hhigh, List.singleton_append,
      decodeFrom_last (by omega), hread _ (by omega)]
    rfl
  · next hthree =>
    obtain ⟨low, high, hlow, hhigh, hlead⟩ :=
      exists_ofLead?_four position (Nat.le_of_not_lt hthree) (by omega)
    rw [List.cons_append, decodeFrom_lead hlead, List.cons_append,
      decodeFrom_next (by omega) hlow hhigh, List.cons_append,
      decodeFrom_next (by omega) (Nat.le_add_right _ _) (by omega), List.singleton_append,
      decodeFrom_last (by omega), hread _ (by omega)]
    rfl

/-- A text is read as it is written, wherever it stands in a file. -/
theorem decodeFrom_encode (position : Nat) (s : Text) :
    decodeFrom position none (encode s) = .ok s := by
  induction s generalizing position with
  | nil => rfl
  | cons c rest ih =>
    rw [encode, List.flatMap_cons, decodeFrom_encodeChar]
    exact congrArg (Except.map (c :: ·)) (ih _)

theorem encodeChar_ne_nil (c : Char) : encodeChar c ≠ [] := by
  unfold encodeChar
  simp only
  split
  · exact List.cons_ne_nil _ _
  split
  · exact List.cons_ne_nil _ _
  split <;> exact List.cons_ne_nil _ _

theorem encode_eq_nil_iff (s : Text) : encode s = [] ↔ s = [] := by
  cases s with
  | nil => exact iff_of_true rfl rfl
  | cons c rest => simp [encode, encodeChar_ne_nil]

/-- A mark is not part of the text behind it, and neither is a second one. -/
theorem decodeMarked_encodeMarked (s : Text) : decodeMarked (encodeMarked s) = .ok s := by
  unfold decodeMarked encodeMarked
  split
  · next hempty =>
    have hle := (List.isPrefixOf_iff_prefix.mp hempty).length_le
    rw [List.length_append] at hle
    have hnil : encode s = [] := List.eq_nil_of_length_eq_zero (by omega)
    rw [(encode_eq_nil_iff s).mp hnil]
  · rw [if_pos (List.isPrefixOf_iff_prefix.mpr (List.prefix_append _ _)), List.drop_left]
    exact decodeFrom_encode 0 s

end Utf8

/-! ## 2. UTF-16 -/

namespace Utf16

/-- The bytes of a unit are the unit. -/
theorem Endian.exists_ofUnit (e : Endian) {unit : Nat} (h : unit < 0x10000) :
    ∃ a b, e.ofUnit unit = [a, b] ∧ e.toUnit a b = unit := by
  have hlow : (UInt8.ofNat (unit % 256)).toNat = unit % 256 :=
    UInt8.toNat_ofNat_of_lt' (Nat.mod_lt unit (by decide))
  have hhigh : (UInt8.ofNat (unit / 256)).toNat = unit / 256 :=
    UInt8.toNat_ofNat_of_lt' (Nat.div_lt_of_lt_mul h)
  cases e with
  | little => exact ⟨_, _, rfl, by rw [toUnit, hlow, hhigh]; omega⟩
  | big => exact ⟨_, _, rfl, by rw [toUnit, hlow, hhigh]; omega⟩

/-- **The units of a character are read as the character**, whatever comes behind them. -/
theorem decodeFrom_units (e : Endian) (position : Nat) (c : Char) (rest : Bytes) :
    ∃ behind, decodeFrom e position none ((units c).flatMap e.ofUnit ++ rest) =
      (decodeFrom e behind none rest).map (c :: ·) := by
  have hrange := codePoint_range c
  have hread : ∀ n, n = c.toNat → Char.ofNat n = c := fun n hn => hn ▸ Char.ofNat_toNat c
  unfold units
  simp only
  split
  · next hone =>
    obtain ⟨a, b, hbytes, hunit⟩ := e.exists_ofUnit hone
    refine ⟨position + 2, ?_⟩
    rw [List.flatMap_singleton, hbytes, List.cons_append, List.singleton_append, decodeFrom]
    simp only [hunit]
    rw [if_pos (by omega), hread _ rfl]
  · next hone =>
    obtain ⟨a, b, hfirst, hhigh⟩ := e.exists_ofUnit
      (show 0xD800 + (c.toNat - 0x10000) / 1024 < 0x10000 by omega)
    obtain ⟨a', b', hsecond, hlow⟩ := e.exists_ofUnit
      (show 0xDC00 + (c.toNat - 0x10000) % 1024 < 0x10000 by omega)
    refine ⟨position + 2 + 2, ?_⟩
    rw [List.flatMap_cons, List.flatMap_singleton, hfirst, hsecond, List.append_assoc,
      List.cons_append, List.singleton_append, decodeFrom]
    simp only [hhigh]
    rw [if_neg (by omega), if_pos (by omega), List.cons_append, List.singleton_append, decodeFrom]
    simp only [hlow, combine]
    rw [if_pos (by omega), hread _ (by omega)]

/-- A text is read as it is written, wherever it stands in a file. -/
theorem decodeFrom_encode (e : Endian) (position : Nat) (s : Text) :
    decodeFrom e position none (encode e s) = .ok s := by
  induction s generalizing position with
  | nil => rfl
  | cons c rest ih =>
    have hcons : encode e (c :: rest) = (units c).flatMap e.ofUnit ++ encode e rest := by
      rw [encode, List.flatMap_cons, List.flatMap_append]
      rfl
    obtain ⟨behind, hc⟩ := decodeFrom_units e position c (encode e rest)
    rw [hcons, hc, ih]
    rfl

theorem decodeMarked_encodeMarked (s : Text) : decodeMarked (encodeMarked s) = .ok s := by
  have hmark : encodeMarked s = 0xFF :: 0xFE :: encode .little s := rfl
  rw [hmark, decodeMarked, decodeFrom_encode]
  rfl

end Utf16

/-! ## 3. The characters of an encoding -/

namespace SingleByte

/-- A text can be written in single bytes if its characters are below the limit. -/
theorem exists_encode_iff (codec : Text) (limit : Nat) (s : Text) :
    (∃ bytes, encode codec limit s = .ok bytes) ↔ ∀ c ∈ s, c.toNat < limit := by
  have hnil : (s.dropWhile fun c => decide (c.toNat < limit)) = [] ↔ ∀ c ∈ s, c.toNat < limit := by
    induction s with
    | nil => simp
    | cons c rest ih =>
      rw [List.forall_mem_cons, List.dropWhile_cons]
      by_cases hc : c.toNat < limit
      · rw [if_pos (decide_eq_true hc), ih]
        exact (and_iff_right hc).symm
      · rw [if_neg (by simpa using hc)]
        exact iff_of_false (List.cons_ne_nil _ _) fun h => hc h.1
  rw [← hnil, encode]
  split
  · next h => exact iff_of_true ⟨_, rfl⟩ h
  · next h =>
    rw [h]
    exact iff_of_false (fun ⟨_, he⟩ => by cases he) (List.cons_ne_nil _ _)

/-- Single bytes below the limit are read as characters below it. -/
theorem lt_limit_of_mem_decode {codec : Text} {limit position : Nat} {bytes : Bytes} {s : Text}
    (h : decode codec limit position bytes = .ok s) : ∀ c ∈ s, c.toNat < limit := by
  induction bytes generalizing position s with
  | nil =>
    cases h
    exact fun c hc => absurd hc List.not_mem_nil
  | cons b rest ih =>
    rw [decode] at h
    split at h
    · next hb =>
      obtain ⟨more, hrest, rfl⟩ := (map_eq_ok_iff _ _ _).mp h
      have hchar : (Char.ofNat b.toNat).toNat < limit := by
        rw [toNat_ofNat_byte]
        exact hb
      exact List.forall_mem_cons.mpr ⟨hchar, ih hrest⟩
    · cases h

end SingleByte

namespace Encoding

/-- The number of code points that an encoding can write, surrogates included. -/
def limit : Encoding → Nat
  | .latin1 => 256
  | .ascii => 128
  | .utf8 | .utf8Marked | .utf16Marked | .utf16 _ => 0x110000

/-- Every encoding has the characters of ASCII. -/
theorem ascii_le_limit (e : Encoding) : 128 ≤ e.limit := by
  cases e with
  | latin1 | ascii => decide
  | utf8 | utf8Marked | utf16Marked | utf16 _ => exact Nat.le_of_ble_eq_true rfl

/-- **An encoding writes the texts of the characters below its limit**, and no others. -/
theorem exists_encode_iff (e : Encoding) (s : Text) :
    (∃ bytes, e.encode s = .ok bytes) ↔ ∀ c ∈ s, c.toNat < e.limit := by
  cases e with
  | latin1 => exact SingleByte.exists_encode_iff _ 256 s
  | ascii => exact SingleByte.exists_encode_iff _ 128 s
  | utf8 | utf8Marked | utf16Marked | utf16 _ =>
    exact iff_of_true ⟨_, rfl⟩ fun c _ => codePoint_lt c

/-- **An encoding reads characters below its limit only.** -/
theorem lt_limit_of_mem_decode {e : Encoding} {bytes : Bytes} {s : Text}
    (h : e.decode bytes = .ok s) : ∀ c ∈ s, c.toNat < e.limit := by
  have hsingle : ∀ {codec : Text} {limit : Nat},
      (SingleByte.decode codec limit 0 bytes).mapError DecodeFault.undecodable = .ok s →
        ∀ c ∈ s, c.toNat < limit :=
    fun h => SingleByte.lt_limit_of_mem_decode ((mapError_eq_ok_iff _ _ _).mp h)
  cases e with
  | latin1 | ascii => exact hsingle h
  | utf8 | utf8Marked | utf16Marked | utf16 _ => exact fun c _ => codePoint_lt c

/-- **What an encoding writes, it reads again.** -/
theorem decode_encode {e : Encoding} {s : Text} {bytes : Bytes} (h : e.encode s = .ok bytes) :
    e.decode bytes = .ok s := by
  cases e with
  | utf8 =>
    cases h
    exact congrArg (Except.mapError _) (Utf8.decodeFrom_encode 0 s)
  | utf8Marked =>
    cases h
    exact congrArg (Except.mapError _) (Utf8.decodeMarked_encodeMarked s)
  | latin1 => exact congrArg (Except.mapError _) (SingleByte.decode_encode (by decide) h 0)
  | ascii => exact congrArg (Except.mapError _) (SingleByte.decode_encode (by decide) h 0)
  | utf16Marked =>
    cases h
    exact Utf16.decodeMarked_encodeMarked s
  | utf16 order =>
    cases h
    exact congrArg (Except.mapError _) (Utf16.decodeFrom_encode order 0 s)

/-- **A text of characters of ASCII and of a text that was read can be written** in the encoding in
    which that was read. -/
theorem exists_encode_of_decode {e : Encoding} {bytes : Bytes} {s t : Text}
    (h : e.decode bytes = .ok s) (ht : ∀ c ∈ t, c ∈ s ∨ c.toNat < 128) :
    ∃ written, e.encode t = .ok written := by
  refine (e.exists_encode_iff t).mpr fun c hc => ?_
  rcases ht c hc with hs | hascii
  · exact lt_limit_of_mem_decode h c hs
  · exact Nat.lt_of_lt_of_le hascii e.ascii_le_limit

end Encoding

/-! ## 4. Line ends -/

namespace Text

/-- A text without carriage returns keeps its line ends. -/
theorem unifyLineEnds_eq_self {s : Text} (h : '\r' ∉ s) : unifyLineEnds s = s := by
  fun_induction unifyLineEnds s with
  | case1 => rfl
  | case2 rest _ => exact absurd List.mem_cons_self h
  | case3 c rest _ ih =>
    have hc : c ≠ '\r' := fun e => h (e ▸ List.mem_cons_self)
    rw [if_neg hc, ih fun hm => h (List.mem_cons_of_mem c hm)]

/-- The only character that unifying line ends may bring in is the line feed. -/
theorem mem_of_mem_unifyLineEnds {s : Text} {c : Char} (h : c ∈ unifyLineEnds s) :
    c ∈ s ∨ c = '\n' := by
  fun_induction unifyLineEnds s with
  | case1 => cases h
  | case2 rest ih =>
    rcases List.mem_cons.mp h with rfl | h
    · exact .inr rfl
    · exact (ih h).imp_left fun hm => List.mem_cons_of_mem _ (List.mem_cons_of_mem _ hm)
  | case3 d rest _ ih =>
    rcases List.mem_cons.mp h with hd | h
    · split at hd
      · exact .inr hd
      · exact .inl (hd ▸ List.mem_cons_self)
    · exact (ih h).imp_left (List.mem_cons_of_mem d)

end Text

end MediaCascade
