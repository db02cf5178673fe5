import Hunkwise.Text.Utf8

/-! Decoding undoes encoding. The bytes of a character bring the byte machine back to where it was
with that character added, whether halves may pass or not; so the bytes of a text without halves are
read as that text. -/

namespace Hunkwise.Text

variable {halves : Bool}

theorem scan_cons (p : Option Pending) (b : UInt8) (bytes : List UInt8) :
    scan halves p (b :: bytes) =
      (nextByte halves p b).1 ++ scan halves (nextByte halves p b).2 bytes := by
  cases p <;> rfl

theorem firstByte_one {n : Nat} (h : n < 0x80) : firstByte halves n = (some n, none) := by
  rw [firstByte, if_pos h]

theorem firstByte_two {x : Nat} (h : 2 ≤ x) (h' : x < 32) :
    firstByte halves (x + 0xC0) = (none, some ⟨0x80, 0xBF, 1, x⟩) := by
  rw [firstByte, if_neg (by omega), if_pos (by omega), Nat.add_sub_cancel]

theorem firstByte_three {x : Nat} (h : x < 16) :
    firstByte halves (x + 0xE0) =
      (none, some ⟨if x = 0 then 0xA0 else 0x80,
        if x = 13 then (if halves then 0xBF else 0x9F) else 0xBF, 2, x⟩) := by
  by_cases h0 : x = 0
  · subst h0; rfl
  by_cases h13 : x = 13
  · subst h13; rfl
  · rw [if_neg h0, if_neg h13, firstByte, if_neg (by omega), if_neg (by omega), if_neg (by omega),
      if_neg (by omega), if_pos (by omega), Nat.add_sub_cancel]

theorem firstByte_four {x : Nat} (h : x < 5) :
    firstByte halves (x + 0xF0) =
      (none, some ⟨if x = 0 then 0x90 else 0x80, if x = 4 then 0x8F else 0xBF, 3, x⟩) := by
  by_cases h0 : x = 0
  · subst h0; rfl
  by_cases h4 : x = 4
  · subst h4; rfl
  · rw [if_neg h0, if_neg h4, firstByte, if_neg (by omega), if_neg (by omega), if_neg (by omega),
      if_neg (by omega), if_neg (by omega), if_neg (by omega), if_pos (by omega),
      Nat.add_sub_cancel]

theorem nextByte_first {n : Nat} {p : Pending} (hn : n < 256)
    (h : firstByte halves n = (none, some p)) :
    nextByte halves none (UInt8.ofNat n) = ([], some p) := by
  rw [nextByte, startByte, UInt8.toNat_ofNat_of_lt' hn, h]

theorem nextByte_middle {low high left bits x : Nat} (hlow : low ≤ x + 0x80)
    (hhigh : x + 0x80 ≤ high) (hx : x < 64) (hleft : 1 < left) :
    nextByte halves (some ⟨low, high, left, bits⟩) (UInt8.ofNat (x + 0x80)) =
      ([], some ⟨0x80, 0xBF, left - 1, bits * 64 + x⟩) := by
  rw [nextByte, UInt8.toNat_ofNat_of_lt' (show _ < 256 by omega), if_pos ⟨hlow, hhigh⟩,
    if_neg (Nat.not_le_of_lt hleft), Nat.add_sub_cancel]

theorem nextByte_last {low high bits x : Nat} (hlow : low ≤ x + 0x80) (hhigh : x + 0x80 ≤ high)
    (hx : x < 64) :
    nextByte halves (some ⟨low, high, 1, bits⟩) (UInt8.ofNat (x + 0x80)) =
      ([some (bits * 64 + x)], none) := by
  rw [nextByte, UInt8.toNat_ofNat_of_lt' (show _ < 256 by omega), if_pos ⟨hlow, hhigh⟩,
    if_pos (Nat.le_refl 1), Nat.add_sub_cancel]

/-- The bytes of a character are read as that character, wherever they stand. -/
theorem scan_utf8EncodeChar (c : Char) (rest : List UInt8) :
    scan halves none (String.utf8EncodeChar c ++ rest) = some c.toNat :: scan halves none rest := by
  have hvalid : c.val.toNat < 0xD800 ∨ 0xDFFF < c.val.toNat ∧ c.val.toNat < 0x110000 := c.valid
  unfold String.utf8EncodeChar Char.toNat
  generalize c.val.toNat = v at hvalid
  dsimp only
  split
  · rw [List.cons_append, scan_cons, nextByte, startByte,
      UInt8.toNat_ofNat_of_lt' (show _ < 256 by omega), firstByte_one (by omega)]
    rfl
  · split
    · rw [Nat.mod_eq_of_lt (a := v / 64) (by omega)]
      simp only [List.cons_append, List.nil_append]
      rw [scan_cons, nextByte_first (by omega) (firstByte_two (by omega) (by omega)), scan_cons,
        nextByte_last (by omega) (by omega) (by omega), show v / 64 * 64 + v % 64 = v by omega]
      rfl
    · split
      · rw [Nat.mod_eq_of_lt (a := v / 4096) (by omega)]
        simp only [List.cons_append, List.nil_append]
        -- the bounds after the first byte leave out shorter forms, and no character is a half
        rw [scan_cons, nextByte_first (by omega) (firstByte_three (by omega)), scan_cons,
          nextByte_middle (by split <;> omega) (by split <;> first | omega | (split <;> omega))
            (by omega) (by omega), scan_cons,
          nextByte_last (by omega) (by omega) (by omega),
          show (v / 4096 * 64 + v / 64 % 64) * 64 + v % 64 = v by omega]
        rfl
      · rw [Nat.mod_eq_of_lt (a := v / 262144) (by omega)]
        simp only [List.cons_append, List.nil_append]
        rw [scan_cons, nextByte_first (by omega) (firstByte_four (by omega)), scan_cons,
          nextByte_middle (by split <;> omega) (by split <;> omega) (by omega) (by omega), scan_cons,
          nextByte_middle (by omega) (by omega) (by omega) (by omega), scan_cons,
          nextByte_last (by omega) (by omega) (by omega),
          show ((v / 262144 * 64 + v / 4096 % 64) * 64 + v / 64 % 64) * 64 + v % 64 = v by omega]
        rfl

theorem scan_encodeChars (cs : List Char) :
    scan halves none (encodeChars cs) = cs.map (some ·.toNat) := by
  induction cs with
  | nil => rfl
  | cons c cs ih =>
    rw [encodeChars, List.flatMap_cons, scan_utf8EncodeChar, List.map_cons, ← ih]
    rfl

theorem decodeLossy_encodeChars (cs : List Char) : decodeLossy (encodeChars cs) = ofChars cs := by
  have hletter (c : Char) : ((some c.toNat).map Char.ofNat).getD '\uFFFD' = c := Char.ofNat_toNat c
  rw [decodeLossy, scan_encodeChars, List.map_map]
  exact congrArg ofChars ((List.map_congr_left fun c _ => hletter c).trans (List.map_id cs))

theorem mapM_scan_encodeChars (cs : List Char) :
    (scan halves none (encodeChars cs)).mapM id = some (cs.map Char.toNat) := by
  rw [scan_encodeChars]
  induction cs with
  | nil => rfl
  | cons c cs ih => rw [List.map_cons, List.mapM_cons, ih]; rfl

theorem decode?_encodeChars (cs : List Char) : decode? (encodeChars cs) = some (ofChars cs) := by
  have hletter : Char.ofNat ∘ Char.toNat = id := funext Char.ofNat_toNat
  rw [decode?, mapM_scan_encodeChars, Option.map_some, List.map_map, hletter, List.map_id]

theorem chars?_eq_some {s : Text} {cs : List Char} (h : s.chars? = some cs) : s = ofChars cs := by
  obtain ⟨ls⟩ := s
  unfold chars? at h
  apply congrArg mk
  dsimp only at h
  induction ls generalizing cs with
  | nil => cases h; rfl
  | cons l ls ih =>
    simp only [List.mapM_cons, Option.bind_eq_bind, Option.bind_eq_some_iff] at h
    obtain ⟨c, hc, ds, hds, hcs⟩ := h
    cases hcs
    cases l with
    | char c' => cases hc; rw [ih hds]; rfl
    | half i => cases hc

theorem decodeLossy_encode? {s : Text} {bytes : List UInt8} (h : s.encode? = some bytes) :
    decodeLossy bytes = s := by
  obtain ⟨cs, hcs, rfl⟩ := Option.map_eq_some_iff.mp h
  rw [decodeLossy_encodeChars, chars?_eq_some hcs]

theorem exists_encode? {s : Text} (h : s.isEncodable = true) : ∃ bytes, s.encode? = some bytes := by
  obtain ⟨ls⟩ := s
  suffices hcs : ∃ cs, ls.mapM Letter.char? = some cs by
    obtain ⟨cs, hcs⟩ := hcs
    exact ⟨encodeChars cs, congrArg (Option.map encodeChars) hcs⟩
  replace h : ∀ l ∈ ls, (!l.isHalf) = true := List.all_eq_true.mp h
  induction ls with
  | nil => exact ⟨[], rfl⟩
  | cons l ls ih =>
    obtain ⟨cs, hcs⟩ := ih fun m hm => h m (List.mem_cons_of_mem l hm)
    cases l with
    | char c => exact ⟨c :: cs, by rw [List.mapM_cons, hcs]; rfl⟩
    | half i => exact absurd (h (.half i) List.mem_cons_self) Bool.false_ne_true

theorem isEncodable_append (s t : Text) :
    (s ++ t).isEncodable = (s.isEncodable && t.isEncodable) := List.all_append

theorem isEncodable_ofChars (cs : List Char) : (ofChars cs).isEncodable = true := by
  unfold isEncodable ofChars
  rw [List.all_map, List.all_eq_true]
  intro c _
  rfl

theorem isEncodable_decodeLossy (bytes : List UInt8) : (decodeLossy bytes).isEncodable = true :=
  isEncodable_ofChars _

end Hunkwise.Text
