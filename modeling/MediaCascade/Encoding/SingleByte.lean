import MediaCascade.Encoding.Fault

/-!
# Encodings of one byte for each character

The first 128 or 256 characters, each written as the byte of its code point.

Main statement: `SingleByte.decode_encode`, what is written is read back.
-/

namespace MediaCascade.SingleByte

/-- Reads bytes below `limit`, the first of them at `position`. -/
def decode (codec : Text) (limit : Nat) (position : Nat) : Bytes → Except Undecodable Text
  | [] => .ok []
  | b :: rest =>
    if b.toNat < limit then
      (decode codec limit (position + 1) rest).map (Char.ofNat b.toNat :: ·)
    else .error ⟨codec, position, b, [], .outOfRange⟩

/-- Writes a text. The fault is the first run of characters from `limit` on. -/
def encode (codec : Text) (limit : Nat) (s : Text) : Except Unencodable Bytes :=
  match s.dropWhile fun c => decide (c.toNat < limit) with
  | [] => .ok (s.map fun c => UInt8.ofNat c.toNat)
  | c :: rest =>
    .error ⟨codec, (s.takeWhile fun c => decide (c.toNat < limit)).length, c,
      1 + (rest.takeWhile fun c => !decide (c.toNat < limit)).length, limit⟩

/-- **What is written is read back.** -/
theorem decode_encode {codec : Text} {limit : Nat} (hl : limit ≤ 256) {s : Text} {bytes : Bytes}
    (h : encode codec limit s = .ok bytes) (position : Nat) :
    decode codec limit position bytes = .ok s := by
  unfold encode at h
  split at h
  · next hd =>
    have hs : ∀ c ∈ s, c.toNat < limit := by
      intro c hc
      have hall := List.all_takeWhile (p := fun c : Char => decide (c.toNat < limit)) (l := s)
      have hsplit := List.takeWhile_append_dropWhile
        (p := fun c : Char => decide (c.toNat < limit)) (l := s)
      rw [hd, List.append_nil] at hsplit
      rw [hsplit, List.all_eq_true] at hall
      simpa using hall c hc
    cases h
    clear hd
    induction s generalizing position with
    | nil => rfl
    | cons c rest ih =>
      have hc : c.toNat < limit := hs c (by simp)
      have hb : (UInt8.ofNat c.toNat).toNat = c.toNat := by
        rw [UInt8.toNat_ofNat']
        omega
      simp only [List.map_cons, decode, hb, hc, if_true]
      rw [ih (position + 1) (fun c' hc' => hs c' (by simp [hc']))]
      simp [Except.map, Char.ofNat_toNat]
  · cases h

end MediaCascade.SingleByte
