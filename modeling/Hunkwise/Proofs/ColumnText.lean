import Hunkwise.Proofs.LineText
import Hunkwise.Proofs.NumberText
import Hunkwise.Text.Blank
import Hunkwise.Text.Digit

/-! Columns of printed text. Words with single blanks between them are read back as these words, and
a whole number in decimal digits is read back as that number unless it has too many of them. -/

namespace Hunkwise.Text

section Words

def Solid (t : Text) : Prop := ∀ l ∈ t.letters, l.isBlank = false

instance (t : Text) : Decidable t.Solid :=
  inferInstanceAs (Decidable (∀ l ∈ t.letters, l.isBlank = false))

structure IsWord (w : Text) : Prop where
  ne_nil : w.letters ≠ []
  solid : w.Solid

instance (w : Text) : Decidable w.IsWord :=
  decidable_of_iff (w.letters ≠ [] ∧ w.Solid) ⟨fun h => ⟨h.1, h.2⟩, fun h => ⟨h.ne_nil, h.solid⟩⟩

variable {p : Letter → Bool} {c d : Letter} {ls ds r : List Letter} {rs : List (List Letter)}

theorem runs_skip (hc : p c = true) (ls : List Letter) : runs p (c :: ls) = runs p ls :=
  if_pos hc

theorem runs_grow (hc : p c = false) (hd : p d = false) (h : runs p (d :: ds) = r :: rs) :
    runs p (c :: d :: ds) = (c :: r) :: rs := by
  unfold runs
  rw [h]
  simp [hc, hd]

theorem runs_end (hc : p c = false) (hd : p d = true) (ds : List Letter) :
    runs p (c :: d :: ds) = [c] :: runs p ds := by
  rw [← runs_skip hd ds]
  conv_lhs => unfold runs
  cases runs p (d :: ds) <;> simp [hc, hd]

theorem runs_of_forall (hne : ls ≠ []) (h : ∀ l ∈ ls, p l = false) : runs p ls = [ls] := by
  induction ls with
  | nil => exact absurd rfl hne
  | cons c cs ih =>
    obtain ⟨hc, hcs⟩ := List.forall_mem_cons.mp h
    cases cs with
    | nil => simp [runs, hc]
    | cons d ds =>
      apply runs_grow hc (hcs d List.mem_cons_self)
      exact ih (List.cons_ne_nil d ds) hcs

/-- A run ends at the first letter that is none of its own. -/
theorem runs_append (hne : ls ≠ []) (h : ∀ l ∈ ls, p l = false) (hd : p d = true)
    (rest : List Letter) : runs p (ls ++ d :: rest) = ls :: runs p rest := by
  induction ls with
  | nil => exact absurd rfl hne
  | cons c cs ih =>
    obtain ⟨hc, hcs⟩ := List.forall_mem_cons.mp h
    cases cs with
    | nil => exact runs_end hc hd rest
    | cons b bs =>
      apply runs_grow hc (hcs b List.mem_cons_self)
      exact ih (List.cons_ne_nil b bs) hcs

variable {w : Text}

theorem IsWord.words_eq (h : w.IsWord) : words w = [w] := by
  simp [words, runs_of_forall h.ne_nil h.solid]

theorem IsWord.words_append (h : w.IsWord) (rest : Text) :
    words (w ++ " " ++ rest) = w :: words rest := by
  have hletters : (w ++ " " ++ rest).letters = w.letters ++ Letter.char ' ' :: rest.letters :=
    List.append_assoc ..
  simp [words, hletters, runs_append h.ne_nil h.solid (d := Letter.char ' ') rfl]

theorem IsWord.append {v : Text} (h : v.IsWord) (hw : w.Solid) : (v ++ w).IsWord where
  ne_nil := List.append_ne_nil_of_left_ne_nil h.ne_nil _
  solid := List.forall_mem_append.mpr ⟨h.solid, hw⟩

end Words

section Numbers

theorem code_of_isDigit {c : Char} (h : c.isDigit = true) :
    48 ≤ (Letter.char c).code ∧ (Letter.char c).code ≤ 57 := by
  rw [Char.isDigit, Bool.and_eq_true, decide_eq_true_iff, decide_eq_true_iff] at h
  exact h

theorem digitValue?_of_isDigit {c : Char} (h : c.isDigit = true) :
    digitValue? (.char c) = some (c.toNat - 48) := by
  obtain ⟨hlow, hhigh⟩ := code_of_isDigit h
  have hfirst : (0x30 ≤ (Letter.char c).code && (Letter.char c).code < 0x30 + 10) = true := by
    simp [hlow, Nat.lt_succ_of_le hhigh]
  rw [digitValue?, digitZeros, List.find?_cons_of_pos (by exact hfirst)]
  rfl

theorem readDigits_digits {cs : List Char} (hcs : ∀ c ∈ cs, c.isDigit = true) (n : Nat) :
    readDigits digitValue? true n (cs.map .char) = some (Nat.ofDigitChars 10 cs n) := by
  induction cs generalizing n with
  | nil => rfl
  | cons c cs ih =>
    obtain ⟨hc, hcs⟩ := List.forall_mem_cons.mp hcs
    simp only [List.map_cons, readDigits, digitValue?_of_isDigit hc, ih hcs, Nat.ofDigitChars_cons,
      Nat.mul_comm n]
    rfl

theorem readInt?_unsigned {l : Letter} {ls : List Letter} (hminus : l ≠ '-') (hplus : l ≠ '+') :
    readInt? ⟨l :: ls⟩ =
      (if mostDigits < (l :: ls).countP fun l => (digitValue? l).isSome then none
        else readDigits digitValue? false 0 (l :: ls)).map Int.ofNat := by
  unfold readInt?
  split
  · next h => exact absurd (List.cons.inj h).1 hminus
  · next h => exact absurd (List.cons.inj h).1 hplus
  · rfl

/-- Decimal digits are read as their number, as long as there are not too many of them. -/
theorem readInt?_digits {cs : List Char} (hne : cs ≠ []) (hcs : ∀ c ∈ cs, c.isDigit = true) :
    readInt? ⟨cs.map .char⟩ =
      if cs.length ≤ mostDigits then some (Nat.ofDigitChars 10 cs 0 : Int) else none := by
  have hcount : (cs.map Letter.char).countP (fun l => (digitValue? l).isSome) = cs.length := by
    rw [List.countP_eq_length.mpr, List.length_map]
    rw [List.forall_mem_map]
    exact fun c hc => by rw [digitValue?_of_isDigit (hcs c hc)]; rfl
  obtain ⟨c, cs, rfl⟩ := List.exists_cons_of_ne_nil hne
  have hc := hcs c List.mem_cons_self
  have hread : readDigits digitValue? false 0 ((c :: cs).map .char) =
      some (Nat.ofDigitChars 10 (c :: cs) 0) := by
    rw [← readDigits_digits hcs 0]
    simp only [List.map_cons, readDigits, digitValue?_of_isDigit hc]
  rw [List.map_cons] at hcount hread ⊢
  rw [readInt?_unsigned, hcount, hread]
  · by_cases hlength : (c :: cs).length ≤ mostDigits
    · rw [if_pos hlength, if_neg (Nat.not_lt.mpr hlength)]
      rfl
    · rw [if_neg hlength, if_pos (Nat.lt_of_not_le hlength)]
      rfl
  all_goals
    rintro h
    cases h
    exact absurd hc (by decide)

theorem readInt?_ofNat (n : Nat) :
    readInt? (ofInt n) = if n < 10 ^ mostDigits then some (n : Int) else none := by
  have hletters : ofInt n = ⟨(Nat.toDigits 10 n).map .char⟩ := congrArg mk (letters_ofNat n)
  rw [hletters, readInt?_digits Nat.toDigits_ne_nil (Json.isDigit_toDigits n),
    Nat.ofDigitChars_ten_toDigits]
  simp only [Nat.length_toDigits_le_iff (by decide : 1 < 10) (by decide : 0 < mostDigits)]

theorem isWord_ofNat (n : Nat) : (ofInt n).IsWord where
  ne_nil := by simp [letters_ofNat]
  solid := by
    rw [Solid, letters_ofNat, List.forall_mem_map]
    intro c hc
    obtain ⟨hlow, hhigh⟩ := code_of_isDigit (Json.isDigit_toDigits n c hc)
    simp [Letter.isBlank, Letter.isSpace]
    omega

end Numbers

end Hunkwise.Text
