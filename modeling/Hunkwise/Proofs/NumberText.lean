import Hunkwise.Json.Reader
import Hunkwise.Json.Writer
import Hunkwise.Proofs.ShortestDecimal

/-! Numbers read back. What is written of a number is read as that number, whole or floating, as long
as what follows could not belong to it. -/

namespace Hunkwise

theorem Text.letters_ofNat (n : Nat) :
    (Text.ofInt n).letters = (Nat.toDigits 10 n).map Letter.char := by
  rw [Text.ofInt, Int.natAbs_natCast, if_neg (Int.not_lt.mpr (Int.natCast_nonneg n))]
  rfl

namespace Json

open Decimal

@[simp] theorem ok_bind {α β : Type} (a : α) (f : α → Reading β) : (.ok a >>= f) = f a := rfl

def NoDigit (ls : List Letter) : Prop := ∀ l ∈ ls.head?, l.isDigit = false

def EndsNumber (ls : List Letter) : Prop :=
  ∀ l ∈ ls.head?, l.isDigit = false ∧ l ≠ '.' ∧ l ≠ 'e' ∧ l ≠ 'E'

variable {cs ws fs : List Char} {ls rest : List Letter}

theorem endsNumber_nil : EndsNumber [] := by
  intro l hl
  cases hl

theorem EndsNumber.noDigit (h : EndsNumber ls) : NoDigit ls := fun l hl => (h l hl).1

theorem takeWhile_digits (hcs : ∀ c ∈ cs, c.isDigit = true) (hls : NoDigit ls) :
    (cs.map Letter.char ++ ls).takeWhile Letter.isDigit = cs.map Letter.char := by
  rw [List.takeWhile_append_of_pos (by simpa [Letter.isDigit] using hcs)]
  cases ls with
  | nil => rw [List.takeWhile_nil, List.append_nil]
  | cons l ls =>
    rw [List.takeWhile_cons_of_neg (by rw [hls l rfl]; exact Bool.false_ne_true), List.append_nil]

theorem dropWhile_digits (hcs : ∀ c ∈ cs, c.isDigit = true) (hls : NoDigit ls) :
    (cs.map Letter.char ++ ls).dropWhile Letter.isDigit = ls := by
  rw [List.dropWhile_append_of_pos (by simpa [Letter.isDigit] using hcs)]
  cases ls with
  | nil => rfl
  | cons l ls => rw [List.dropWhile_cons_of_neg (by rw [hls l rfl]; exact Bool.false_ne_true)]

theorem digitsValue_chars (cs : List Char) :
    digitsValue (cs.map .char) = Nat.ofDigitChars 10 cs 0 := by
  unfold digitsValue Nat.ofDigitChars
  rw [List.foldl_map]
  congr 1
  funext n c
  rw [Nat.mul_comm 10 n]
  rfl

theorem isDigit_toDigits (n : Nat) : ∀ c ∈ Nat.toDigits 10 n, c.isDigit = true :=
  fun _ => Nat.isDigit_of_mem_toDigits (by decide) (by decide)

/-- The digits that a whole number may have: a zero comes first only if it stands alone. -/
structure IsWhole (cs : List Char) : Prop where
  digits : ∀ c ∈ cs, c.isDigit = true
  ne_nil : cs ≠ []
  alone : cs.head? = some '0' → cs = ['0']

theorem head?_toDigits {n : Nat} (hn : n ≠ 0) : (Nat.toDigits 10 n).head? ≠ some '0' := by
  induction n using Nat.strongRecOn with
  | ind n ih =>
    by_cases h : n < 10
    · rw [Nat.toDigits_of_lt_base h]
      exact (by decide : ∀ m < 10, m ≠ 0 → [m.digitChar].head? ≠ some '0') n h hn
    · rw [Nat.toDigits_of_base_le (by decide) (not_lt.mp h), List.head?_append_of_ne_nil _
        Nat.toDigits_ne_nil]
      exact ih (n / 10) (by omega) (by omega)

theorem isWhole_toDigits (n : Nat) : IsWhole (Nat.toDigits 10 n) where
  digits := isDigit_toDigits n
  ne_nil := Nat.toDigits_ne_nil
  alone h := by
    by_cases hn : n = 0
    · rw [hn]; rfl
    · exact absurd h (head?_toDigits hn)

theorem isWhole_append {n k : Nat} (hn : n ≠ 0) (hk : 0 < k) (zeros : Nat) :
    IsWhole ((Nat.toDigits 10 n).take k ++ List.replicate zeros '0') where
  digits c hc := by
    rcases List.mem_append.mp hc with h | h
    · exact isDigit_toDigits n c (List.mem_of_mem_take h)
    · rw [List.eq_of_mem_replicate h]; rfl
  ne_nil h := by
    have := (List.append_eq_nil_iff.mp h).1
    rw [List.take_eq_nil_iff] at this
    exact this.elim (by omega) Nat.toDigits_ne_nil
  alone h := by
    have hne : (Nat.toDigits 10 n).take k ≠ [] := by
      rw [Ne, List.take_eq_nil_iff]
      exact fun h => h.elim (by omega) Nat.toDigits_ne_nil
    rw [List.head?_append_of_ne_nil _ hne, List.head?_take, if_neg hk.ne'] at h
    exact absurd h (head?_toDigits hn)

theorem readWhole_digits (hws : IsWhole ws) (hls : NoDigit ls) :
    readWhole (ws.map .char ++ ls) = .ok (ws.map .char, ls) := by
  unfold readWhole
  rw [takeWhile_digits hws.digits hls, dropWhile_digits hws.digits hls]
  cases ws with
  | nil => exact absurd rfl hws.ne_nil
  | cons c cs =>
    by_cases hc : c = '0'
    · subst hc
      rw [(List.cons.inj (hws.alone rfl)).2]
      rfl
    · simp [hc]

theorem readFraction_none (h : ∀ l ∈ ls.head?, l ≠ '.') : readFraction ls = ([], ls) := by
  unfold readFraction
  split
  · next l => exact absurd rfl (h _ rfl)
  · rfl

theorem readFraction_digits (hfs : ∀ c ∈ fs, c.isDigit = true) (hne : fs ≠ []) (hls : NoDigit ls) :
    readFraction (.char '.' :: (fs.map .char ++ ls)) = (fs.map .char, ls) := by
  simp only [readFraction, takeWhile_digits hfs hls, dropWhile_digits hfs hls]
  cases fs with
  | nil => exact absurd rfl hne
  | cons c cs => rfl

theorem readExponent_none (h : EndsNumber ls) : readExponent ls = (none, ls) := by
  cases ls with
  | nil => rfl
  | cons l ls =>
    obtain ⟨-, -, he, hE⟩ := h l rfl
    simp [readExponent, he, hE]

theorem readExponent_digits (e : Int) (zeros : Nat) (hls : NoDigit ls) :
    readExponent (((if e < 0 then ['e', '-'] else ['e', '+']) ++ List.replicate zeros '0'
      ++ Nat.toDigits 10 e.natAbs).map .char ++ ls) = (some e, ls) := by
  set es := List.replicate zeros '0' ++ Nat.toDigits 10 e.natAbs with hes
  have hdigits : ∀ c ∈ es, c.isDigit = true := by
    intro c hc
    rcases List.mem_append.mp hc with h | h
    · rw [List.eq_of_mem_replicate h]; rfl
    · exact isDigit_toDigits _ c h
  have hvalue : digitsValue (es.map .char) = e.natAbs := by
    rw [digitsValue_chars, hes, Nat.ofDigitChars_append, Nat.ofDigitChars_replicate_zero,
      Nat.mul_zero, Nat.ofDigitChars_ten_toDigits]
  have hne : es.map Letter.char ≠ [] := by
    rw [hes, Ne, List.map_eq_nil_iff, List.append_eq_nil_iff]
    exact fun h => Nat.toDigits_ne_nil h.2
  have htake := takeWhile_digits hdigits hls
  have hdrop := dropWhile_digits hdigits hls
  rw [List.append_assoc, ← hes]
  -- the mark and the sign are read first, and the digits after them are read alike
  by_cases he : e < 0
  · rw [if_pos he]
    simp only [List.cons_append, List.nil_append, List.map_cons, readExponent, true_or, if_true,
      htake, hdrop, hvalue]
    exact congrArg (fun n => (some n, ls)) (by omega)
  · rw [if_neg he]
    simp only [List.cons_append, List.nil_append, List.map_cons, readExponent, true_or, if_true,
      htake, hdrop, hvalue]
    exact congrArg (fun n => (some n, ls)) (by simp; omega)

theorem readUnsigned_whole (negative : Bool) (hws : IsWhole ws) (hshort : ws.length ≤ Text.mostDigits)
    (hrest : EndsNumber rest) :
    readUnsigned negative (ws.map .char ++ rest) =
      .ok (.int (if negative then -(Nat.ofDigitChars 10 ws 0 : Int) else Nat.ofDigitChars 10 ws 0),
        rest) := by
  unfold readUnsigned
  have hpoint := readFraction_none fun l hl => (hrest l hl).2.1
  simp [readWhole_digits hws hrest.noDigit, hpoint, readExponent_none hrest, digitsValue_chars,
    not_lt.mpr hshort]
  rfl

theorem readUnsigned_float (negative : Bool) {ls' : List Letter} {e : Option Int} (hws : IsWhole ws)
    (hls : NoDigit ls) (hfraction : readFraction ls = (fs.map .char, ls'))
    (hexponent : readExponent ls' = (e, rest)) (hfloat : fs ≠ [] ∨ e.isSome = true) :
    readUnsigned negative (ws.map .char ++ ls) =
      .ok (.float (toFloat negative (Nat.ofDigitChars 10 (ws ++ fs) 0) (e.getD 0 - fs.length)),
        rest) := by
  have hkind : (fs.isEmpty && e.isNone) = false := by
    rcases hfloat with h | h
    · cases fs with
      | nil => exact absurd rfl h
      | cons c cs => rfl
    · cases e with
      | none => cases h
      | some e => exact Bool.and_false _
  unfold readUnsigned
  simp only [readWhole_digits hws hls, hfraction, hexponent, ok_bind]
  simp [hkind, ← List.map_append, digitsValue_chars]
  rfl

theorem noDigit_cons {c : Char} (hc : c.isDigit = false) (ls : List Letter) :
    NoDigit (.char c :: ls) := by
  rintro l hl
  cases hl
  exact hc

theorem readUnsigned_point (negative : Bool) (hws : IsWhole ws) (hfs : ∀ c ∈ fs, c.isDigit = true)
    (hne : fs ≠ []) (hrest : EndsNumber rest) :
    readUnsigned negative ((ws ++ '.' :: fs).map .char ++ rest) =
      .ok (.float (toFloat negative (Nat.ofDigitChars 10 (ws ++ fs) 0) (-fs.length)), rest) := by
  rw [List.map_append, List.map_cons, List.append_assoc, List.cons_append,
    readUnsigned_float negative hws (noDigit_cons rfl _)
      (readFraction_digits hfs hne hrest.noDigit) (readExponent_none hrest) (.inl hne)]
  simp

theorem readUnsigned_exponent (negative : Bool) {ds : List Char} (hds : ∀ c ∈ ds, c.isDigit = true)
    (hne : ds ≠ []) (e : Int) (zeros : Nat) (hrest : EndsNumber rest) :
    readUnsigned negative
        ((ds.take 1 ++ (if ds.length ≤ 1 then [] else '.' :: ds.drop 1)
          ++ (if e < 0 then ['e', '-'] else ['e', '+']) ++ List.replicate zeros '0'
          ++ Nat.toDigits 10 e.natAbs).map .char ++ rest) =
      .ok (.float (toFloat negative (Nat.ofDigitChars 10 ds 0) (e - (ds.length - 1 : Nat))), rest) := by
  obtain ⟨c, fs, rfl⟩ := List.exists_cons_of_ne_nil hne
  set mark := (if e < 0 then ['e', '-'] else ['e', '+']) ++ List.replicate zeros '0'
    ++ Nat.toDigits 10 e.natAbs with hmark
  obtain ⟨more, hmore⟩ : ∃ more, mark.map Letter.char ++ rest = .char 'e' :: more := by
    rw [hmark]
    split_ifs <;> exact ⟨_, rfl⟩
  have hexponent : readExponent (mark.map .char ++ rest) = (some e, rest) :=
    readExponent_digits e zeros hrest.noDigit
  have hwhole : IsWhole [c] := ⟨fun d hd => hds d (List.mem_cons.mpr (.inl (List.mem_singleton.mp hd))),
    List.cons_ne_nil _ _, fun h => by rw [Option.some.inj h]⟩
  have hnodigit : NoDigit (mark.map .char ++ rest) := hmore ▸ noDigit_cons rfl more
  cases fs with
  | nil =>
    have hfraction : readFraction (mark.map .char ++ rest) =
        (([] : List Char).map .char, mark.map .char ++ rest) :=
      readFraction_none (hmore ▸ by rintro l hl; cases hl; decide)
    have hread := readUnsigned_float negative hwhole hnodigit hfraction hexponent (.inr rfl)
    simpa [hmark] using hread
  | cons d ds =>
    have hread := readUnsigned_float negative hwhole (noDigit_cons rfl _)
      (readFraction_digits (fun a ha => hds a (List.mem_cons_of_mem c ha)) (List.cons_ne_nil d ds)
        hnodigit) hexponent (.inr rfl)
    simpa [hmark] using hread

variable {s : Scientific}

/-- A written decimal is read as a decimal of the same value. -/
theorem readUnsigned_render (style : Style) (negative : Bool) (hs : s.digits ≠ 0)
    (hrest : EndsNumber rest) :
    ∃ (D : Nat) (E : Int), (D * 10 ^ E : ℚ) = s.value ∧
      readUnsigned negative ((s.render style).toList.map .char ++ rest) =
        .ok (.float (toFloat negative D E), rest) := by
  unfold Scientific.render
  set ds := Nat.toDigits 10 s.digits with hds
  have hvalue : Nat.ofDigitChars 10 ds 0 = s.digits := Nat.ofDigitChars_ten_toDigits
  have hdigits : ∀ c ∈ ds, c.isDigit = true := isDigit_toDigits s.digits
  have hlength : 0 < ds.length := Nat.length_toDigits_pos
  dsimp only
  split
  · set e : Int := ds.length + s.exponent - 1
    refine ⟨s.digits, s.exponent, rfl, ?_⟩
    have hread := readUnsigned_exponent negative hdigits (List.length_pos_iff.mp hlength) e
      (if (Nat.toDigits 10 e.natAbs).length < 2 then 1 else 0) hrest
    rw [hvalue, show e - (ds.length - 1 : Nat) = s.exponent by omega] at hread
    rw [String.toList_ofList, ← hread]
    split_ifs <;> rfl
  split
  · next hsmall =>
    refine ⟨s.digits, s.exponent, rfl, ?_⟩
    set zeros := (-(ds.length + s.exponent) : Int).toNat with hzeros
    have hfraction : ∀ c ∈ List.replicate zeros '0' ++ ds, c.isDigit = true := by
      intro c hc
      rcases List.mem_append.mp hc with h | h
      · rw [List.eq_of_mem_replicate h]; rfl
      · exact hdigits c h
    have hread := readUnsigned_point negative (isWhole_toDigits 0) hfraction
      (List.append_ne_nil_of_right_ne_nil _ (List.length_pos_iff.mp hlength)) hrest
    have hdots : Nat.ofDigitChars 10 (Nat.toDigits 10 0 ++ (List.replicate zeros '0' ++ ds)) 0 =
        s.digits := by
      rw [Nat.ofDigitChars_append, Nat.ofDigitChars_ten_toDigits, Nat.ofDigitChars_append,
        Nat.ofDigitChars_replicate_zero, Nat.mul_zero, hvalue]
    rw [hdots, List.length_append, List.length_replicate,
      show (-(zeros + ds.length : Nat) : Int) = s.exponent by omega] at hread
    rw [String.toList_ofList, ← hread]
    rfl
  split
  · next hlarge hwhole =>
    set zeros := (ds.length + s.exponent - ds.length : Int).toNat with hzeros
    have hread := readUnsigned_point negative (isWhole_append hs hlength zeros)
      (List.forall_mem_singleton.mpr (show '0'.isDigit = true from rfl)) (List.cons_ne_nil _ _) hrest
    rw [← hds, List.take_length] at hread
    refine ⟨_, _, ?_, by rw [String.toList_ofList, hread]⟩
    rw [Nat.ofDigitChars_append, Nat.ofDigitChars_append, hvalue, Nat.ofDigitChars_replicate_zero]
    have hexponent : (s.exponent : Int) = zeros := by omega
    rw [Scientific.value, hexponent, zpow_natCast]
    show ((10 * (10 ^ zeros * s.digits) + 0 : Nat) : ℚ) * 10 ^ (-1 : Int) = _
    push_cast
    rw [zpow_neg_one]
    ring
  · next hlarge hwhole =>
    refine ⟨s.digits, s.exponent, rfl, ?_⟩
    set point := (ds.length + s.exponent : Int).toNat with hpoint
    have hread := readUnsigned_point negative (isWhole_append hs (show 0 < point by omega) 0)
      (fun c (hc : c ∈ ds.drop point) => hdigits c (List.mem_of_mem_drop hc))
      (by rw [Ne, List.drop_eq_nil_iff]; omega) hrest
    rw [← hds, List.replicate_zero, List.append_nil, List.take_append_drop, hvalue, List.length_drop,
      show (-(ds.length - point : Nat) : Int) = s.exponent by omega] at hread
    rw [String.toList_ofList, hread]

/-- A number that can be read starts with a digit. -/
theorem head_of_readUnsigned {negative : Bool} {r : Json × List Letter}
    (h : readUnsigned negative ls = .ok r) : ∃ c ls', ls = .char c :: ls' ∧ c.isDigit = true := by
  unfold readUnsigned readWhole at h
  cases ls with
  | nil => cases h
  | cons l ls =>
    cases hl : l.isDigit with
    | false =>
      rw [List.takeWhile_cons_of_neg (by rw [hl]; exact Bool.false_ne_true)] at h
      cases h
    | true =>
      cases l with
      | char c => exact ⟨c, ls, rfl, hl⟩
      | half i => cases hl

theorem readAtom_sign {negative : Bool} {r : Json × List Letter}
    (h : readUnsigned negative ls = .ok r) :
    readAtom ((if negative then ['-'] else []).map .char ++ ls) = .ok r := by
  obtain ⟨c, ls', rfl, hc⟩ := head_of_readUnsigned h
  have hletters : c ≠ 'n' ∧ c ≠ 't' ∧ c ≠ 'f' ∧ c ≠ 'N' ∧ c ≠ 'I' ∧ c ≠ '-' := by
    refine ⟨?_, ?_, ?_, ?_, ?_, ?_⟩ <;> (rintro rfl; cases hc)
  obtain ⟨h₁, h₂, h₃, h₄, h₅, h₆⟩ := hletters
  cases negative <;> simp [readAtom, *]

/-- A whole number that is not too long reads back. -/
theorem readAtom_writeInt {n : Int} (hshort : isLong (.int n) = false) (hrest : EndsNumber rest) :
    readAtom ((writeInt n).map .char ++ rest) = .ok (.int n, rest) := by
  have hread := readUnsigned_whole (decide (n < 0)) (isWhole_toDigits n.natAbs)
    (by simpa [isLong] using hshort) hrest
  rw [Nat.ofDigitChars_ten_toDigits] at hread
  have hsigned : (if decide (n < 0) = true then -(n.natAbs : Int) else n.natAbs) = n := by
    by_cases h : n < 0
    · rw [decide_eq_true h, if_pos rfl]
      omega
    · rw [decide_eq_false h, if_neg Bool.false_ne_true]
      omega
  rw [hsigned] at hread
  rw [← readAtom_sign hread]
  unfold writeInt
  by_cases h : n < 0 <;> simp [h]

theorem toList_sign (negative : Bool) :
    (if negative then "-" else "").toList = if negative then ['-'] else [] := by
  cases negative <;> rfl

theorem toFloat_zero {x : Float} (hzero : (Double.ofFloat x).significand = 0) :
    toFloat (Double.ofFloat x).negative 0 (-1) = x := by
  have hbits := Double.toNat_toBits x
  apply Double.eq_of_toNat_toBits
  rcases Double.significand_cases x with ⟨hb, hs, -⟩ | ⟨-, hs, -⟩
  · rw [hbits, Double.bits, hb, ← hs, hzero, Double.sign]
    cases (Double.ofFloat x).negative <;> rfl
  · omega

theorem eq_infinite {x : Float} (hfinite : (Double.ofFloat x).isFinite = false)
    (hfraction : (Double.ofFloat x).fraction = 0) :
    x = if (Double.ofFloat x).negative then -1.0 / 0.0 else 1.0 / 0.0 := by
  have hbiased : (Double.ofFloat x).biased = 2047 := by
    have := of_decide_eq_false hfinite
    have : (Double.ofFloat x).biased + 1 = 2048 := not_not.mp this
    omega
  apply Double.eq_of_toNat_toBits
  rw [Double.toNat_toBits x, Double.bits, hbiased, hfraction, Double.sign]
  cases (Double.ofFloat x).negative <;> rfl

theorem eq_notANumber {x : Float} (hfinite : (Double.ofFloat x).isFinite = false)
    (hfraction : (Double.ofFloat x).fraction ≠ 0) : x = 0.0 / 0.0 := by
  have hbiased : (Double.ofFloat x).biased + 1 = 2048 := not_not.mp (of_decide_eq_false hfinite)
  have hexp := Double.toNat_unpackExponent x
  have hman := Double.toNat_unpackMantissa x
  have hvalid := x.toModel.valid.eq_packedNaN
    (BitVec.eq_of_toNat_eq (hexp.trans (show _ = 2047 by omega)))
    (fun h => hfraction (hman.symm.trans (congrArg BitVec.toNat h)))
  apply Double.eq_of_toNat_toBits
  exact congrArg BitVec.toNat hvalid

/-- A floating-point number reads back, whichever it is. -/
theorem readAtom_render (x : Float) (hrest : EndsNumber rest) :
    readAtom ((render .document x).toList.map .char ++ rest) = .ok (.float x, rest) := by
  have hsign (ds : String) {r : Json × List Letter}
      (h : readUnsigned (Double.ofFloat x).negative (ds.toList.map .char ++ rest) = .ok r) :
      readAtom (((if (Double.ofFloat x).negative then "-" else "") ++ ds).toList.map .char ++ rest) =
        .ok r := by
    rw [String.toList_append, toList_sign, List.map_append, List.append_assoc]
    exact readAtom_sign h
  unfold render
  dsimp only
  cases hfinite : (Double.ofFloat x).isFinite with
  | true =>
    rw [if_pos rfl]
    split
    · next hzero =>
      have hread := readUnsigned_point (Double.ofFloat x).negative (isWhole_toDigits 0)
        (List.forall_mem_singleton.mpr (show '0'.isDigit = true from rfl)) (List.cons_ne_nil _ _) hrest
      rw [show Nat.ofDigitChars 10 (Nat.toDigits 10 0 ++ ['0']) 0 = 0 from rfl] at hread
      rw [hsign "0.0" hread]
      exact congrArg (fun y => Except.ok (Json.float y, rest)) (toFloat_zero hzero)
    · next hpos =>
      have hround := roundsTo_shortest (Nat.pos_of_ne_zero hpos)
      obtain ⟨D, E, hvalue, hread⟩ := readUnsigned_render .document (Double.ofFloat x).negative
        hround.ne_zero hrest
      rw [hsign _ hread, toFloat_eq hfinite (hvalue ▸ hround)]
  | false =>
    rw [if_neg Bool.false_ne_true]
    split
    · next hfraction =>
      conv_rhs => rw [eq_infinite hfinite hfraction]
      cases (Double.ofFloat x).negative <;> rfl
    · next hfraction => rw [eq_notANumber hfinite hfraction]; rfl

end Json

end Hunkwise
