import Hunkwise.Proofs.DocumentParts
import Hunkwise.Proofs.WrittenText

/-! What readers give. They leave an end of what was ahead, their numbers are short, the keys of an
object are distinct, and a text without halves ahead has no pair of halves that could be joined. So a
document that was read can be written, and is read back as it is. -/

namespace Hunkwise.Json

variable {l : Letter} {ls rest : List Letter} {text : Text → Prop}

theorem bind_eq_ok {α β : Type} {x : Reading α} {f : α → Reading β} {b : β} :
    (x >>= f) = .ok b ↔ ∃ a, x = .ok a ∧ f a = .ok b := by
  cases x with
  | error e => exact ⟨nofun, fun ⟨_, h, _⟩ => nomatch h⟩
  | ok a => exact ⟨fun h => ⟨a, rfl, h⟩, fun ⟨_, rfl, h⟩ => h⟩

theorem skipGaps_suffix (ls : List Letter) : skipGaps ls <:+ ls := List.dropWhile_suffix _

theorem suffix_of_skipGaps (h : skipGaps ls = l :: rest) : rest <:+ ls :=
  (h ▸ List.suffix_cons l rest : rest <:+ skipGaps ls).trans (skipGaps_suffix ls)

section Suffixes

theorem readUnit_suffix {n : Nat} (h : readUnit ls = .ok (n, rest)) : rest <:+ ls := by
  unfold readUnit at h
  split at h
  · next a b c d rest' =>
    split at h
    · cases h
      exact ⟨[a, b, c, d], rfl⟩
    · cases h
  · cases h

theorem readEscapedUnits_suffix (h : readEscapedUnits ls = .ok (l, rest)) : rest <:+ ls := by
  obtain ⟨⟨n, after⟩, hunit, h⟩ := bind_eq_ok.mp h
  have hafter := readUnit_suffix hunit
  dsimp only at h
  split at h
  · next more _ =>
    obtain ⟨⟨m, last⟩, hlow, h⟩ := bind_eq_ok.mp h
    have hmore : last <:+ .char '\\' :: .char 'u' :: more :=
      (readUnit_suffix hlow).trans ⟨[.char '\\', .char 'u'], rfl⟩
    split at h
    · cases h
      exact hmore.trans hafter
    · cases h
      exact hafter
  · cases h
    exact hafter

theorem readEscape_suffix (h : readEscape ls = .ok (l, rest)) : rest <:+ ls := by
  unfold readEscape at h
  split at h
  case h_9 => exact (readEscapedUnits_suffix h).trans (List.suffix_cons _ _)
  case h_10 => cases h
  all_goals
    cases h
    exact List.suffix_cons _ _

theorem readLetters_suffix {fuel : Nat} {ms : List Letter} (h : readLetters fuel ls = .ok (ms, rest)) :
    rest <:+ ls := by
  fun_induction readLetters fuel ls generalizing ms with
  | case1 => cases h
  | case2 => cases h
  | case3 => cases h; exact List.suffix_cons _ _
  | case4 fuel ls _ ih =>
    obtain ⟨⟨m, after⟩, hescape, h⟩ := bind_eq_ok.mp h
    obtain ⟨⟨ms, last⟩, hletters, h⟩ := bind_eq_ok.mp h
    cases h
    exact (ih after hletters).trans ((readEscape_suffix hescape).trans (List.suffix_cons _ _))
  | case5 => cases h
  | case6 fuel l ls _ _ _ ih =>
    obtain ⟨⟨ms, last⟩, hletters, h⟩ := bind_eq_ok.mp h
    cases h
    exact (ih hletters).trans (List.suffix_cons _ _)

theorem readText_suffix {fuel : Nat} {s : Text} (h : readText fuel ls = .ok (s, rest)) : rest <:+ ls := by
  obtain ⟨⟨ms, last⟩, hletters, h⟩ := bind_eq_ok.mp h
  cases h
  exact readLetters_suffix hletters

theorem readWhole_suffix {ds : List Letter} (h : readWhole ls = .ok (ds, rest)) : rest <:+ ls := by
  unfold readWhole at h
  split at h
  · cases h
  · cases h; exact List.drop_suffix 1 ls
  · cases h; exact List.dropWhile_suffix _

theorem readFraction_suffix (ls : List Letter) : (readFraction ls).2 <:+ ls := by
  unfold readFraction
  split
  · split
    · exact List.suffix_rfl
    · exact (List.dropWhile_suffix _).trans (List.suffix_cons _ _)
  · exact List.suffix_rfl

theorem readExponent_suffix (ls : List Letter) : (readExponent ls).2 <:+ ls := by
  fun_cases readExponent ls with
  | case1 => exact List.suffix_rfl
  | case2 l rest _ negative ds hds =>
    have hsign : ds <:+ rest := by
      split at hds <;> cases hds
      · exact List.suffix_cons _ _
      · exact List.suffix_cons _ _
      · exact List.suffix_rfl
    exact ((List.dropWhile_suffix _).trans hsign).trans (List.suffix_cons _ _)
  | case3 => exact List.suffix_rfl
  | case4 => exact List.suffix_rfl

end Suffixes

theorem each_kept_atom {v : Json} (hshort : v.isLong = false) (hparts : v.parts = [])
    (hkeyed : v.Keyed) (htexts : v.Texts text) : Each (Kept text) v :=
  each_scalar ⟨hshort, hkeyed, htexts⟩ hparts

theorem digitsValue_lt {ds : List Letter} (h : ∀ l ∈ ds, l.isDigit = true) :
    digitsValue ds < 10 ^ ds.length := by
  induction ds using List.reverseRecOn with
  | nil => exact Nat.one_pos
  | append_singleton ds l ih =>
    have hds := ih fun m hm => h m (List.mem_append_left _ hm)
    have hl : l.digitValue < 10 := by
      have hdigit := h l (List.mem_append_right _ (List.mem_singleton_self l))
      cases l with
      | char c =>
        simp only [Letter.isDigit, Char.isDigit, Bool.and_eq_true, decide_eq_true_eq] at hdigit
        have hle : c.toNat ≤ 57 := hdigit.2
        rw [Letter.digitValue, Letter.code]
        omega
      | half i => cases hdigit
    rw [digitsValue, List.foldl_append, List.length_append]
    show digitsValue ds * 10 + l.digitValue < 10 ^ (ds.length + 1)
    rw [Nat.pow_succ]
    omega

theorem readWhole_digits_of_ok {ds : List Letter} (h : readWhole ls = .ok (ds, rest)) :
    ∀ l ∈ ds, l.isDigit = true := by
  unfold readWhole at h
  split at h
  · cases h
  · cases h
    exact fun l hl => List.mem_singleton.mp hl ▸ rfl
  · cases h
    exact List.all_eq_true.mp List.all_takeWhile

theorem readUnsigned_spec {negative : Bool} {v : Json} (h : readUnsigned negative ls = .ok (v, rest)) :
    Each (Kept text) v ∧ v.height = 1 ∧ rest <:+ ls := by
  obtain ⟨⟨whole, after⟩, hwhole, h⟩ := bind_eq_ok.mp h
  have hsuffix := ((readExponent_suffix _).trans (readFraction_suffix _)).trans (readWhole_suffix hwhole)
  dsimp only at h
  split at h
  · split at h
    · cases h
    · next hlength =>
      cases h
      have hlt := digitsValue_lt (readWhole_digits_of_ok hwhole)
      have hshort : (Nat.toDigits 10 (digitsValue whole)).length ≤ Text.mostDigits := by
        refine (Nat.length_toDigits_le_iff (by decide) (by decide)).mpr (Nat.lt_of_lt_of_le hlt ?_)
        exact Nat.pow_le_pow_right (by decide) (Nat.not_lt.mp hlength)
      refine ⟨each_kept_atom ?_ rfl trivial trivial, rfl, hsuffix⟩
      rw [isLong, decide_eq_false_iff_not, Nat.not_lt]
      split
      · rwa [Int.natAbs_neg, Int.natAbs_natCast]
      · rwa [Int.natAbs_natCast]
  · cases h
    exact ⟨each_kept_atom rfl rfl trivial trivial, rfl, hsuffix⟩

theorem readWord_spec {w : Text} {u v : Json} (h : readWord w u ls = .ok (v, rest))
    (hu : Each (Kept text) u ∧ u.height = 1) : Each (Kept text) v ∧ v.height = 1 ∧ rest <:+ ls := by
  unfold readWord at h
  split at h
  · cases h
    exact ⟨hu.1, hu.2, List.drop_suffix _ _⟩
  · cases h

theorem readAtom_spec {v : Json} (h : readAtom ls = .ok (v, rest)) :
    Each (Kept text) v ∧ v.height = 1 ∧ rest <:+ ls := by
  unfold readAtom at h
  split at h
  case h_7 =>
    obtain ⟨hv, hheight, hrest⟩ := readUnsigned_spec h
    exact ⟨hv, hheight, hrest.trans (List.suffix_cons _ _)⟩
  case h_8 => exact readUnsigned_spec h
  all_goals exact readWord_spec h ⟨each_kept_atom rfl rfl trivial trivial, rfl⟩

section Texts

variable {fuel : Nat}

theorem joinHalves_cons {ms : List Letter} (hms : Encoding.joinHalves ms = ms)
    (h : l.isHigh = true → ∀ m ∈ ms.head?, m.isLow = false) :
    Encoding.joinHalves (l :: ms) = l :: ms := by
  cases ms with
  | nil => rfl
  | cons m ms =>
    rw [Encoding.joinHalves, if_neg, hms]
    rintro hpair
    obtain ⟨hl, hm⟩ := (Bool.and_eq_true _ _).mp hpair
    rw [h hl m rfl] at hm
    cases hm

/-- No escape of a low half is left after a high one. -/
theorem noLow_of_readEscapedUnits (h : readEscapedUnits ls = .ok (l, rest)) (hl : l.isHigh = true) :
    NoLow rest := by
  obtain ⟨⟨n, after⟩, hunit, h⟩ := bind_eq_ok.mp h
  dsimp only at h
  split at h
  · next more _ =>
    obtain ⟨⟨m, last⟩, hnext, h⟩ := bind_eq_ok.mp h
    dsimp only at h
    split at h
    · cases h
      rw [Letter.pair, isHigh_char] at hl
      cases hl
    · next hlow =>
      cases h
      rintro more' hmore
      cases hmore
      exact ⟨m, last, hnext, Bool.eq_false_iff.mpr hlow⟩
  · next hno =>
    cases h
    rintro more rfl
    exact (hno more hl rfl).elim

theorem noLow_of_readEscape (h : readEscape ls = .ok (l, rest)) (hl : l.isHigh = true) : NoLow rest := by
  unfold readEscape at h
  split at h
  case h_9 => exact noLow_of_readEscapedUnits h hl
  case h_10 => cases h
  all_goals
    cases h
    rw [isHigh_char] at hl
    cases hl

theorem isLow_char (c : Char) : (Letter.char c).isLow = false := by
  have := (char_toNat_bounds c).1
  rw [Letter.isLow, Letter.code, Bool.and_eq_false_iff, decide_eq_false_iff_not,
    decide_eq_false_iff_not]
  omega

theorem not_half_cases (h : l.isHalf = false) : ∃ c, l = .char c := by
  cases l with
  | char c => exact ⟨c, rfl⟩
  | half i => cases h

theorem isLow_of_readEscape (h : readEscape ls = .ok (l, rest)) (hls : NoLow (.char '\\' :: ls)) :
    l.isLow = false := by
  unfold readEscape at h
  split at h
  case h_9 more =>
    obtain ⟨m, last, hnext, hlow⟩ := hls more rfl
    unfold readEscapedUnits at h
    rw [hnext, ok_bind] at h
    dsimp only at h
    split at h
    · obtain ⟨⟨k, after⟩, -, h⟩ := bind_eq_ok.mp h
      dsimp only at h
      split at h
      · cases h
        exact isLow_char _
      · cases h
        exact hlow
    · cases h
      exact hlow
  case h_10 => cases h
  all_goals
    cases h
    exact isLow_char _

theorem head_of_readLetters {ms : List Letter} (h : readLetters fuel ls = .ok (ms, rest))
    (hls : ∀ m ∈ ls, m.isHalf = false) (hlow : NoLow ls) : ∀ m ∈ ms.head?, m.isLow = false := by
  revert h
  fun_cases readLetters fuel ls <;> intro h
  case case3 => cases h; nofun
  case case4 fuel ls =>
    obtain ⟨⟨m, after⟩, hescape, h⟩ := bind_eq_ok.mp h
    obtain ⟨⟨ms, last⟩, -, h⟩ := bind_eq_ok.mp h
    cases h
    rintro m hm
    cases hm
    exact isLow_of_readEscape hescape hlow
  case case6 fuel l ls _ _ _ =>
    obtain ⟨⟨ms, last⟩, -, h⟩ := bind_eq_ok.mp h
    cases h
    rintro m hm
    cases hm
    obtain ⟨c, rfl⟩ := not_half_cases (hls l List.mem_cons_self)
    exact isLow_char c
  all_goals cases h

/-- Without halves ahead, no text has a high half right before a low one. -/
theorem joinHalves_of_readLetters {ms : List Letter} (h : readLetters fuel ls = .ok (ms, rest))
    (hls : ∀ m ∈ ls, m.isHalf = false) : Encoding.joinHalves ms = ms := by
  fun_induction readLetters fuel ls generalizing ms with
  | case1 => cases h
  | case2 => cases h
  | case3 => cases h; rfl
  | case4 fuel ls _ ih =>
    obtain ⟨⟨m, after⟩, hescape, h⟩ := bind_eq_ok.mp h
    obtain ⟨⟨ms, last⟩, hletters, h⟩ := bind_eq_ok.mp h
    cases h
    have hafter : ∀ m ∈ after, m.isHalf = false := fun m hm =>
      hls m (List.mem_cons_of_mem _ ((readEscape_suffix hescape).subset hm))
    exact joinHalves_cons (ih after hletters hafter)
      fun hm => head_of_readLetters hletters hafter (noLow_of_readEscape hescape hm)
  | case5 => cases h
  | case6 fuel l ls _ _ _ ih =>
    obtain ⟨⟨ms, last⟩, hletters, h⟩ := bind_eq_ok.mp h
    cases h
    obtain ⟨c, rfl⟩ := not_half_cases (hls l List.mem_cons_self)
    refine joinHalves_cons (ih hletters fun m hm => hls m (List.mem_cons_of_mem _ hm)) fun hc => ?_
    rw [isHigh_char] at hc
    cases hc

end Texts

section Values

/-- What is known of the letters ahead carries over to the texts that are read from them. -/
structure GivesTexts (good : Letter → Prop) (text : Text → Prop) : Prop where
  read : ∀ {fuel ls s rest}, (∀ l ∈ ls, good l) → readText fuel ls = .ok (s, rest) → text s

theorem givesTexts_any : GivesTexts (fun _ => True) fun _ => True := ⟨fun _ _ => trivial⟩

theorem givesTexts_joined : GivesTexts (fun l => l.isHalf = false) fun s => s.joined = s where
  read hls h := by
    obtain ⟨⟨ms, last⟩, hletters, h⟩ := bind_eq_ok.mp h
    cases h
    exact congrArg Text.mk (joinHalves_of_readLetters hletters hls)

/-- A text that was written and read stays as it is from then on. -/
theorem joined_joined (s : Text) : s.joined.joined = s.joined := by
  obtain ⟨ls, hls, hread⟩ := readText_written s [] (Nat.lt_succ_self s.length)
  refine givesTexts_joined.read (fun l hl => ?_) hread
  have hmem : l ∈ (writeText s).map Letter.char ++ [] := hls ▸ List.mem_cons_of_mem _ hl
  rw [List.append_nil] at hmem
  obtain ⟨c, -, rfl⟩ := List.mem_map.mp hmem
  rfl

structure GivesValues (good : Letter → Prop) (text : Text → Prop) (fuel : Nat) : Prop where
  value : ∀ {room ls v rest}, (∀ l ∈ ls, good l) → readValue fuel room ls = .ok (v, rest) →
    Each (Kept text) v ∧ v.height ≤ room + 1 ∧ rest <:+ ls
  items : ∀ {room ls vs rest}, (∀ l ∈ ls, good l) → readItems fuel room ls = .ok (vs, rest) →
    (∀ v ∈ vs, Each (Kept text) v ∧ v.height ≤ room + 1) ∧ rest <:+ ls
  members : ∀ {room ls fs rest}, (∀ l ∈ ls, good l) → readMembers fuel room ls = .ok (fs, rest) →
    (∀ e ∈ fs, text e.1 ∧ Each (Kept text) e.2 ∧ e.2.height ≤ room + 1) ∧ rest <:+ ls

variable {good : Letter → Prop} {fuel : Nat}

theorem good_suffix (hls : ∀ l ∈ ls, good l) (h : rest <:+ ls) : ∀ l ∈ rest, good l :=
  fun l hl => hls l (h.subset hl)

theorem each_kept_object {fs : Fields} (hfs : ∀ e ∈ fs, text e.1 ∧ Each (Kept text) e.2) :
    Each (Kept text) (.object fs) := by
  refine each_obj.mpr ⟨.obj (Table.Distinct.update Table.distinct_nil fs) fun key hkey => ?_,
    fun e he => ?_⟩
  · obtain ⟨e, he, rfl⟩ := List.mem_map.mp hkey
    exact ((Table.mem_update he).elim nofun (hfs e)).1
  · exact ((Table.mem_update he).elim nofun (hfs e)).2

theorem GivesValues.value_succ (ih : GivesValues good text fuel) (htext : GivesTexts good text)
    {room : Nat} {v : Json} (hls : ∀ l ∈ ls, good l)
    (h : readValue (fuel + 1) room ls = .ok (v, rest)) :
    Each (Kept text) v ∧ v.height ≤ room + 1 ∧ rest <:+ ls := by
  rw [readValue] at h
  split at h
  · next more hmore =>
    have hahead := suffix_of_skipGaps hmore
    obtain ⟨⟨s, last⟩, hread, h⟩ := bind_eq_ok.mp h
    cases h
    exact ⟨each_kept_str (htext.read (good_suffix hls hahead) hread), Nat.le_add_left _ _,
      (readText_suffix hread).trans hahead⟩
  · next more hmore =>
    have hahead := (skipGaps_suffix more).trans (suffix_of_skipGaps hmore)
    split at h
    · cases h
    · next hclose =>
      cases h
      exact ⟨each_kept_atom rfl rfl trivial trivial, Nat.le_add_left _ _,
        (suffix_of_skipGaps hclose).trans (suffix_of_skipGaps hmore)⟩
    · obtain ⟨⟨items, last⟩, hread, h⟩ := bind_eq_ok.mp h
      cases h
      obtain ⟨hitems, hlast⟩ := ih.items (good_suffix hls hahead) hread
      exact ⟨each_arr.mpr ⟨.arr items, fun w hw => (hitems w hw).1⟩,
        Nat.succ_le_succ (itemsHeight_le.mpr fun w hw => (hitems w hw).2), hlast.trans hahead⟩
  · next more hmore =>
    have hahead := (skipGaps_suffix more).trans (suffix_of_skipGaps hmore)
    split at h
    · cases h
    · next hclose =>
      cases h
      exact ⟨each_obj.mpr ⟨.obj Table.distinct_nil nofun, nofun⟩, Nat.le_add_left _ _,
        (suffix_of_skipGaps hclose).trans (suffix_of_skipGaps hmore)⟩
    · obtain ⟨⟨fs, last⟩, hread, h⟩ := bind_eq_ok.mp h
      cases h
      obtain ⟨hfields, hlast⟩ := ih.members (good_suffix hls hahead) hread
      exact ⟨each_kept_object fun e he => ⟨(hfields e he).1, (hfields e he).2.1⟩,
        height_object_le fun e he => (hfields e he).2.2, hlast.trans hahead⟩
  · obtain ⟨hv, hheight, hlast⟩ := readAtom_spec h
    exact ⟨hv, by omega, hlast.trans (skipGaps_suffix ls)⟩

theorem GivesValues.items_succ (ih : GivesValues good text fuel) {room : Nat} {vs : List Json}
    (hls : ∀ l ∈ ls, good l) (h : readItems (fuel + 1) room ls = .ok (vs, rest)) :
    (∀ v ∈ vs, Each (Kept text) v ∧ v.height ≤ room + 1) ∧ rest <:+ ls := by
  rw [readItems] at h
  obtain ⟨⟨item, after⟩, hitem, h⟩ := bind_eq_ok.mp h
  obtain ⟨hv, hheight, hafter⟩ := ih.value hls hitem
  dsimp only at h
  split at h
  · next more hmore =>
    have hahead := (suffix_of_skipGaps hmore).trans hafter
    obtain ⟨⟨items, last⟩, hread, h⟩ := bind_eq_ok.mp h
    cases h
    obtain ⟨hitems, hlast⟩ := ih.items (good_suffix hls hahead) hread
    exact ⟨List.forall_mem_cons.mpr ⟨⟨hv, hheight⟩, hitems⟩, hlast.trans hahead⟩
  · next hclose =>
    cases h
    exact ⟨fun w hw => List.mem_singleton.mp hw ▸ ⟨hv, hheight⟩,
      (suffix_of_skipGaps hclose).trans hafter⟩
  · cases h

theorem GivesValues.members_succ (ih : GivesValues good text fuel) (htext : GivesTexts good text)
    {room : Nat} {fs : Fields} (hls : ∀ l ∈ ls, good l)
    (h : readMembers (fuel + 1) room ls = .ok (fs, rest)) :
    (∀ e ∈ fs, text e.1 ∧ Each (Kept text) e.2 ∧ e.2.height ≤ room + 1) ∧ rest <:+ ls := by
  rw [readMembers] at h
  split at h
  · next more hmore =>
    have hahead := suffix_of_skipGaps hmore
    obtain ⟨⟨key, named⟩, hkey, h⟩ := bind_eq_ok.mp h
    have htexts := htext.read (good_suffix hls hahead) hkey
    have hnamed := (readText_suffix hkey).trans hahead
    dsimp only at h
    split at h
    · next colon hcolon =>
      have hcolon := (suffix_of_skipGaps hcolon).trans hnamed
      obtain ⟨⟨v, after⟩, hvalue, h⟩ := bind_eq_ok.mp h
      obtain ⟨hv, hheight, hafter⟩ := ih.value (good_suffix hls hcolon) hvalue
      dsimp only at h
      split at h
      · next more hmore =>
        have hahead := (suffix_of_skipGaps hmore).trans (hafter.trans hcolon)
        obtain ⟨⟨fs, last⟩, hread, h⟩ := bind_eq_ok.mp h
        cases h
        obtain ⟨hfields, hlast⟩ := ih.members (good_suffix hls hahead) hread
        exact ⟨List.forall_mem_cons.mpr ⟨⟨htexts, hv, hheight⟩, hfields⟩, hlast.trans hahead⟩
      · next hclose =>
        cases h
        exact ⟨fun e he => List.mem_singleton.mp he ▸ ⟨htexts, hv, hheight⟩,
          (suffix_of_skipGaps hclose).trans (hafter.trans hcolon)⟩
      · cases h
    · cases h
  · cases h

theorem givesValues (htext : GivesTexts good text) (fuel : Nat) : GivesValues good text fuel := by
  induction fuel with
  | zero => exact ⟨fun _ h => (nomatch h), fun _ h => (nomatch h), fun _ h => (nomatch h)⟩
  | succ fuel ih => exact ⟨ih.value_succ htext, ih.items_succ, ih.members_succ htext⟩

/-- What a document that was read is like. -/
theorem parse_spec (htext : GivesTexts good text) {room : Nat} {s : Text} {v : Json}
    (hs : ∀ l ∈ s.letters, good l) (h : parse room s = .ok v) :
    Each (Kept text) v ∧ v.height ≤ room + 1 := by
  obtain ⟨⟨u, rest⟩, hread, h⟩ := bind_eq_ok.mp h
  obtain ⟨hu, hheight, -⟩ := (givesValues htext _).value hs hread
  dsimp only at h
  split at h
  · cases h
    exact ⟨hu, hheight⟩
  · cases h

end Values

section Room

/-- What is read with less room is the same, unless it is found too deep. -/
def Agrees {α : Type} (x y : Reading α) : Prop := y = .error .tooDeep ∨ y = x

variable {α β : Type} {x y z : Reading α}

theorem agrees_rfl : Agrees x x := .inr rfl

theorem agrees_tooDeep : Agrees x (.error .tooDeep) := .inl rfl

theorem Agrees.trans (h : Agrees x y) (h' : Agrees y z) : Agrees x z := by
  rcases h' with h' | rfl
  · exact .inl h'
  · exact h

theorem Agrees.bind {f g : α → Reading β} (h : Agrees x y) (hf : ∀ a, Agrees (f a) (g a)) :
    Agrees (x >>= f) (y >>= g) := by
  rcases h with rfl | rfl
  · exact agrees_tooDeep
  · cases y with
    | error e => exact agrees_rfl
    | ok a => exact hf a

structure Roomy (fuel : Nat) : Prop where
  value : ∀ room ls, Agrees (readValue fuel (room + 1) ls) (readValue fuel room ls)
  items : ∀ room ls, Agrees (readItems fuel (room + 1) ls) (readItems fuel room ls)
  members : ∀ room ls, Agrees (readMembers fuel (room + 1) ls) (readMembers fuel room ls)

theorem roomy_succ {fuel : Nat} (ih : Roomy fuel) : Roomy (fuel + 1) where
  value room ls := by
    rw [readValue, readValue]
    split
    · exact agrees_rfl
    · cases room with
      | zero => exact agrees_tooDeep
      | succ room =>
        split
        · next hzero => cases hzero
        · next hclose => simp only [hclose]; exact agrees_rfl
        · next hroom _ => cases hroom; exact (ih.items room _).bind fun _ => agrees_rfl
    · cases room with
      | zero => exact agrees_tooDeep
      | succ room =>
        split
        · next hzero => cases hzero
        · next hclose => simp only [hclose]; exact agrees_rfl
        · next hroom _ => cases hroom; exact (ih.members room _).bind fun _ => agrees_rfl
    · exact agrees_rfl
  items room ls := by
    rw [readItems, readItems]
    refine (ih.value room ls).bind fun r => ?_
    dsimp only
    split
    · exact (ih.items room _).bind fun _ => agrees_rfl
    · exact agrees_rfl
    · exact agrees_rfl
  members room ls := by
    rw [readMembers, readMembers]
    split
    · refine agrees_rfl.bind fun r => ?_
      dsimp only
      split
      · refine (ih.value room _).bind fun r => ?_
        split
        · exact (ih.members room _).bind fun _ => agrees_rfl
        · exact agrees_rfl
        · exact agrees_rfl
      · exact agrees_rfl
    · exact agrees_rfl

theorem roomy (fuel : Nat) : Roomy fuel := by
  induction fuel with
  | zero => exact ⟨fun _ _ => agrees_rfl, fun _ _ => agrees_rfl, fun _ _ => agrees_rfl⟩
  | succ fuel ih => exact roomy_succ ih

/-- With less room a document is read as before, or found too deep. -/
theorem parse_less_room {room room' : Nat} (s : Text) (hroom : room ≤ room') :
    Agrees (parse room' s) (parse room s) := by
  induction hroom with
  | refl => exact agrees_rfl
  | @step n _ ih => exact (((roomy _).value n _).bind fun _ => agrees_rfl : Agrees _ (parse n s)).trans ih

end Room

end Hunkwise.Json
