import Hunkwise.Proofs.NumberText
import Hunkwise.Text.Encoding

/-! Texts read back. A written text is read as it was, except that a high half right before a low one
comes back as the character that the two make: the escapes of both look like the escapes of that
character. -/

namespace Hunkwise

/-- A text with its halves joined where they make characters. -/
def Text.joined (s : Text) : Text := ⟨Encoding.joinHalves s.letters⟩

namespace Json

open Encoding

variable {l m : Letter} {n : Nat} {ls rest : List Letter}

theorem hexValue?_hexDigit (h : n < 16) : hexValue? (Text.hexDigit n) = some n :=
  (by decide : ∀ n < 16, hexValue? (Text.hexDigit n) = some n) n h

def unitLetters (n : Nat) : List Letter := (Text.hexDigits n 4).map .char

theorem readUnit_unitLetters (h : n < 0x10000) (rest : List Letter) :
    readUnit (unitLetters n ++ rest) = .ok (n, rest) := by
  have hdigit (k : Nat) : hexValue? (Text.hexDigit (k % 16)) = some (k % 16) :=
    hexValue?_hexDigit (Nat.mod_lt k (by decide))
  simp only [unitLetters, Text.hexDigits, List.nil_append, List.cons_append, List.map_cons,
    List.map_nil, readUnit, List.mapM_cons, List.mapM_nil, Letter.char?, Option.bind_some, hdigit]
  simp
  omega

theorem map_unitEscape (n : Nat) :
    (unitEscape n).map Letter.char = .char '\\' :: .char 'u' :: unitLetters n := rfl

theorem char_toNat_bounds (c : Char) :
    ¬ (0xD800 ≤ c.toNat ∧ c.toNat < 0xE000) ∧ c.toNat < 0x110000 := by
  have hvalid : c.toNat < 0xD800 ∨ 0xDFFF < c.toNat ∧ c.toNat < 0x110000 := c.valid
  omega

theorem isHigh_char (c : Char) : (Letter.char c).isHigh = false := by
  have := (char_toNat_bounds c).1
  rw [Letter.isHigh, Letter.code, Bool.and_eq_false_iff, decide_eq_false_iff_not,
    decide_eq_false_iff_not]
  omega

theorem ofCode_code (l : Letter) : Letter.ofCode l.code = l := by
  cases l with
  | char c => rw [Letter.code, Letter.ofCode, dif_neg (char_toNat_bounds c).1, Char.ofNat_toNat]
  | half i =>
    have hi := i.isLt
    rw [Letter.code, Letter.ofCode, dif_pos (by omega)]
    exact congrArg Letter.half (Fin.ext (Nat.add_sub_cancel_left ..))

theorem code_lt (l : Letter) : l.code < 0x110000 := by
  cases l with
  | char c => exact (char_toNat_bounds c).2
  | half i => have hi := i.isLt; rw [Letter.code]; omega

/-- What does not start with the escape of a low half, nor with a broken one. -/
def NoLow (ls : List Letter) : Prop :=
  ∀ more, ls = .char '\\' :: .char 'u' :: more →
    ∃ n rest, readUnit more = .ok (n, rest) ∧ (Letter.ofCode n).isLow = false

theorem noLow_of_head {c : Char} (h : c ≠ '\\') (ls : List Letter) : NoLow (.char c :: ls) := by
  rintro more hmore
  cases hmore
  exact absurd rfl h

theorem readEscapedUnits_single (hl : l.code < 0x10000) (hrest : l.isHigh = true → NoLow rest) :
    readEscapedUnits (unitLetters l.code ++ rest) = .ok (l, rest) := by
  unfold readEscapedUnits
  rw [readUnit_unitLetters hl, ok_bind]
  dsimp only
  rw [ofCode_code]
  split
  · next more hhigh =>
    obtain ⟨n, after, hread, hlow⟩ := hrest hhigh more rfl
    rw [hread, ok_bind]
    dsimp only
    rw [hlow]
    rfl
  · rfl

theorem readEscapedUnits_pair (hl : l.isHigh = true) (hm : m.isLow = true) (rest : List Letter) :
    readEscapedUnits (unitLetters l.code ++ ((unitEscape m.code).map .char ++ rest)) =
      .ok (Letter.pair l m, rest) := by
  have hlow : l.code < 0x10000 ∧ m.code < 0x10000 := by
    simp only [Letter.isHigh, Letter.isLow, Bool.and_eq_true, decide_eq_true_eq] at hl hm
    omega
  unfold readEscapedUnits
  rw [readUnit_unitLetters hlow.1, ok_bind]
  simp only [ofCode_code, hl, map_unitEscape, List.cons_append]
  rw [readUnit_unitLetters hlow.2, ok_bind]
  simp only [ofCode_code, hm]
  rfl

def after (l : Letter) (r : Reading (List Letter × List Letter)) :
    Reading (List Letter × List Letter) := r.map fun (ms, rest) => (l :: ms, rest)

theorem readLetters_escape {fuel : Nat} (h : readEscape ls = .ok (l, rest)) :
    readLetters (fuel + 1) (.char '\\' :: ls) = after l (readLetters fuel rest) := by
  simp only [readLetters]
  rw [if_neg (by decide), if_pos trivial, h, ok_bind, after]
  cases readLetters fuel rest <;> rfl

theorem readLetters_plain {fuel : Nat} {c : Char} (hmark : c ≠ '"') (hslash : c ≠ '\\')
    (hcontrol : 0x20 ≤ c.toNat) :
    readLetters (fuel + 1) (.char c :: rest) = after (.char c) (readLetters fuel rest) := by
  simp only [readLetters]
  rw [if_neg (by simpa using hmark), if_neg (by simpa using hslash),
    if_neg (by rw [Letter.code]; omega), after]
  cases readLetters fuel rest <;> rfl

theorem readEscape_units (ls : List Letter) :
    readEscape (.char 'u' :: ls) = readEscapedUnits ls := rfl

/-- A character beyond the units is written as the two halves that make it. -/
theorem pair_halves (hl : 0x10000 ≤ l.code) :
    let high := Letter.ofCode (0xD800 + (l.code - 0x10000) / 0x400)
    let low := Letter.ofCode (0xDC00 + (l.code - 0x10000) % 0x400)
    high.isHigh = true ∧ low.isLow = true ∧ Letter.pair high low = l ∧
      high.code = 0xD800 + (l.code - 0x10000) / 0x400 ∧
      low.code = 0xDC00 + (l.code - 0x10000) % 0x400 := by
  intro high low
  have hlt := code_lt l
  have hhigh : high.code = _ := Letter.code_ofCode_half (by omega)
  have hlow : low.code = _ := Letter.code_ofCode_half (by omega)
  refine ⟨?_, ?_, ?_, hhigh, hlow⟩
  · rw [Letter.isHigh, hhigh, Bool.and_eq_true, decide_eq_true_eq, decide_eq_true_eq]
    omega
  · rw [Letter.isLow, hlow, Bool.and_eq_true, decide_eq_true_eq, decide_eq_true_eq]
    omega
  · rw [Letter.pair, hhigh, hlow, show 0x10000 + (0xD800 + (l.code - 0x10000) / 0x400 - 0xD800) * 0x400
      + (0xDC00 + (l.code - 0x10000) % 0x400 - 0xDC00) = l.code by omega]
    cases l with
    | char c => rw [Letter.code, Char.ofNat_toNat]
    | half i =>
      have hi := i.isLt
      rw [Letter.code] at hl
      omega

theorem eq_char (h : l.code = n) (hn : n < 0xD800) : l = .char (Char.ofNat n) := by
  rw [← ofCode_code l, h, Letter.ofCode, dif_neg (by omega)]

/-- The four ways to write a letter: a short escape, the letter itself, one unit, or two. -/
theorem escapeLetter_cases (l : Letter) :
    (∃ c, c ≠ 'u' ∧ escapeLetter l = ['\\', c] ∧
        ∀ rest, readEscape (.char c :: rest) = .ok (l, rest)) ∨
      (∃ c, c ≠ '"' ∧ c ≠ '\\' ∧ 0x20 ≤ c.toNat ∧ l = .char c ∧ escapeLetter l = [c]) ∨
      (l.code < 0x10000 ∧ escapeLetter l = unitEscape l.code) ∨
      ∃ high low, high.isHigh = true ∧ low.isLow = true ∧ Letter.pair high low = l ∧
        escapeLetter l = unitEscape high.code ++ unitEscape low.code := by
  have hshort {n : Nat} {c : Char} (hl : l.code = n) (hn : n < 0xD800) (hc : c ≠ 'u')
      (hread : ∀ rest, readEscape (.char c :: rest) = .ok (.char (Char.ofNat n), rest)) :
      ∃ d, d ≠ 'u' ∧ ['\\', c] = ['\\', d] ∧ ∀ rest, readEscape (.char d :: rest) = .ok (l, rest) :=
    ⟨c, hc, rfl, eq_char hl hn ▸ hread⟩
  obtain ⟨cs, he⟩ : ∃ cs, escapeLetter l = cs := ⟨_, rfl⟩
  rw [he]
  simp only [escapeLetter] at he
  split_ifs at he with hmark hslash hn hr ht hb hf hplain hunit <;> subst he
  · exact .inl (hshort hmark (by decide) (by decide) fun _ => rfl)
  · exact .inl (hshort hslash (by decide) (by decide) fun _ => rfl)
  · exact .inl (hshort hn (by decide) (by decide) fun _ => rfl)
  · exact .inl (hshort hr (by decide) (by decide) fun _ => rfl)
  · exact .inl (hshort ht (by decide) (by decide) fun _ => rfl)
  · exact .inl (hshort hb (by decide) (by decide) fun _ => rfl)
  · exact .inl (hshort hf (by decide) (by decide) fun _ => rfl)
  · have hl := eq_char (l := l) rfl (by omega)
    have hcode : (Char.ofNat l.code).toNat = l.code := (congrArg Letter.code hl).symm
    refine .inr (.inl ⟨_, fun h => hmark ?_, fun h => hslash ?_, ?_, hl, rfl⟩)
    · rw [← hcode, h]; rfl
    · rw [← hcode, h]; rfl
    · rw [hcode]; exact hplain.1
  · exact .inr (.inr (.inl ⟨hunit, rfl⟩))
  · obtain ⟨hhigh, hlow, hpair, hhighCode, hlowCode⟩ := pair_halves (l := l) (by omega)
    exact .inr (.inr (.inr ⟨_, _, hhigh, hlow, hpair, by rw [hhighCode, hlowCode]⟩))

/-- A written letter is read as that letter, before anything that it could not be joined to. -/
theorem readLetters_escapeLetter {fuel : Nat} (hrest : l.isHigh = true → NoLow rest) :
    readLetters (fuel + 1) ((escapeLetter l).map .char ++ rest) = after l (readLetters fuel rest) := by
  rcases escapeLetter_cases l with ⟨c, -, he, hread⟩ | ⟨c, hmark, hslash, hcontrol, rfl, he⟩ |
    ⟨hunit, he⟩ | ⟨high, low, hhigh, hlow, rfl, he⟩
  · rw [he]
    exact readLetters_escape (hread rest)
  · rw [he]
    exact readLetters_plain hmark hslash hcontrol
  · rw [he, map_unitEscape]
    exact readLetters_escape ((readEscape_units _).trans (readEscapedUnits_single hunit hrest))
  · rw [he, List.map_append, List.append_assoc, map_unitEscape]
    exact readLetters_escape
      ((readEscape_units _).trans (readEscapedUnits_pair hhigh hlow rest))

theorem code_lt_of_isHigh (hl : l.isHigh = true) : l.code < 0x10000 ∧ l.isLow = false := by
  simp only [Letter.isHigh, Letter.isLow, Bool.and_eq_true, Bool.and_eq_false_iff, decide_eq_true_eq,
    decide_eq_false_iff_not] at hl ⊢
  omega

/-- A written letter that is no low half does not look like one. -/
theorem noLow_escapeLetter (hl : l.isLow = false) (rest : List Letter) :
    NoLow ((escapeLetter l).map .char ++ rest) := by
  rcases escapeLetter_cases l with ⟨c, hc, he, -⟩ | ⟨c, -, hslash, -, rfl, he⟩ |
    ⟨hunit, he⟩ | ⟨high, low, hhigh, -, -, he⟩
  · rw [he]
    rintro more hmore
    cases hmore
    exact absurd rfl hc
  · rw [he]
    exact noLow_of_head hslash rest
  · rw [he, map_unitEscape]
    rintro more hmore
    cases hmore
    exact ⟨l.code, rest, readUnit_unitLetters hunit rest, by rw [ofCode_code, hl]⟩
  · obtain ⟨hlt, hnot⟩ := code_lt_of_isHigh hhigh
    rw [he, List.map_append, List.append_assoc, map_unitEscape]
    rintro more hmore
    cases hmore
    exact ⟨high.code, _, readUnit_unitLetters hlt _, by rw [ofCode_code, hnot]⟩

theorem escapeLetter_half (hl : 0xD800 ≤ l.code ∧ l.code < 0xE000) :
    escapeLetter l = unitEscape l.code := by
  simp only [escapeLetter]
  rw [if_neg (by omega), if_neg (by omega), if_neg (by omega), if_neg (by omega), if_neg (by omega),
    if_neg (by omega), if_neg (by omega), if_neg (by omega), if_pos (by omega)]

theorem readLetters_pair {fuel : Nat} (hl : l.isHigh = true) (hm : m.isLow = true) :
    readLetters (fuel + 1) ((escapeLetter l ++ escapeLetter m).map .char ++ rest) =
      after (Letter.pair l m) (readLetters fuel rest) := by
  have hread := readEscapedUnits_pair hl hm rest
  simp only [Letter.isHigh, Letter.isLow, Bool.and_eq_true, decide_eq_true_eq] at hl hm
  rw [escapeLetter_half (by omega), escapeLetter_half (by omega), List.map_append,
    List.append_assoc, map_unitEscape]
  exact readLetters_escape ((readEscape_units _).trans hread)

theorem readLetters_written (ls : List Letter) (rest : List Letter) {fuel : Nat}
    (hfuel : ls.length < fuel) :
    readLetters fuel ((ls.flatMap escapeLetter).map .char ++ .char '"' :: rest) =
      .ok (joinHalves ls, rest) := by
  obtain ⟨fuel, rfl⟩ : ∃ n, fuel = n + 1 := ⟨fuel - 1, by omega⟩
  fun_induction joinHalves ls generalizing fuel with
  | case1 => rfl
  | case2 l =>
    obtain ⟨fuel, rfl⟩ : ∃ n, fuel = n + 1 := ⟨fuel - 1, by simp at hfuel; omega⟩
    rw [List.flatMap_singleton, readLetters_escapeLetter fun _ => noLow_of_head (by decide) rest]
    rfl
  | case3 l m ls hpair ih =>
    obtain ⟨hl, hm⟩ := (Bool.and_eq_true _ _).mp hpair
    obtain ⟨fuel, rfl⟩ : ∃ n, fuel = n + 1 := ⟨fuel - 1, by simp at hfuel; omega⟩
    rw [List.flatMap_cons, List.flatMap_cons, ← List.append_assoc, List.map_append,
      List.append_assoc, readLetters_pair hl hm, ih fuel (by simp at hfuel ⊢; omega)]
    rfl
  | case4 l m ls hpair ih =>
    obtain ⟨fuel, rfl⟩ : ∃ n, fuel = n + 1 := ⟨fuel - 1, by simp at hfuel; omega⟩
    have hnext (hl : l.isHigh = true) :
        NoLow (((m :: ls).flatMap escapeLetter).map .char ++ .char '"' :: rest) := by
      have hm : m.isLow = false := by
        rw [hl, Bool.true_and] at hpair
        exact Bool.eq_false_iff.mpr hpair
      rw [List.flatMap_cons, List.map_append, List.append_assoc]
      exact noLow_escapeLetter hm _
    rw [List.flatMap_cons, List.map_append, List.append_assoc, readLetters_escapeLetter hnext,
      ih fuel (by simp at hfuel ⊢; omega)]
    rfl

theorem readText_written (s : Text) (rest : List Letter) {fuel : Nat} (hfuel : s.length < fuel) :
    ∃ ls, (writeText s).map .char ++ rest = .char '"' :: ls ∧
      readText fuel ls = .ok (s.joined, rest) := by
  refine ⟨(s.letters.flatMap escapeLetter).map .char ++ .char '"' :: rest, ?_, ?_⟩
  · simp [writeText]
  · rw [readText, readLetters_written s.letters rest hfuel]
    rfl

theorem length_escapeLetter_pos (l : Letter) : 0 < (escapeLetter l).length := by
  rcases escapeLetter_cases l with ⟨c, -, he, -⟩ | ⟨c, -, -, -, -, he⟩ | ⟨-, he⟩ |
    ⟨high, low, -, -, -, he⟩ <;> rw [he] <;> simp [unitEscape]

theorem length_lt_writeText (s : Text) : s.length < (writeText s).length := by
  have h : s.letters.length ≤ (s.letters.flatMap escapeLetter).length := by
    induction s.letters with
    | nil => exact Nat.zero_le _
    | cons l ls ih =>
      have := length_escapeLetter_pos l
      rw [List.flatMap_cons, List.length_append, List.length_cons]
      omega
  simp only [writeText, Text.length, List.length_append, List.length_cons, List.length_nil]
  omega

theorem joinHalves_eq_self (h : ∀ l ∈ ls, l.isHalf = false) : joinHalves ls = ls := by
  fun_induction joinHalves ls with
  | case1 => rfl
  | case2 => rfl
  | case3 l m ls hpair =>
    have hl := h l List.mem_cons_self
    cases l with
    | char c => rw [isHigh_char] at hpair; cases hpair
    | half i => cases hl
  | case4 l m ls hpair ih => rw [ih fun l hl => h l (List.mem_cons_of_mem _ hl)]

end Json

theorem Text.joined_eq_self {s : Text} (h : s.isEncodable = true) : s.joined = s := by
  have hletters : ∀ l ∈ s.letters, l.isHalf = false := fun l hl => by
    have := List.all_eq_true.mp h l hl
    rwa [Bool.not_eq_true'] at this
  exact congrArg Text.mk (Json.joinHalves_eq_self hletters)

end Hunkwise
