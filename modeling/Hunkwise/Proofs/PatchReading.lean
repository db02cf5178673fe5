import Hunkwise.Proofs.HunkGroups
import Hunkwise.Proofs.NumberText
import Hunkwise.Proofs.ReportedText
import Hunkwise.Proofs.SameLines

/-! Unified diffs read as patches. A reader of patches knows nothing of alignments: it takes the lines of
a text one by one, enters a hunk at a header that stands where the old and the new lines have got to, and
counts the lines of the hunk, so that a line which looks like a header is a line of the hunk as long as
the header promised one. Every old line that the patch repeats has to be the next one. The unified diff
from old lines to new ones is read so, and what the reader writes are the new lines. -/

namespace Hunkwise.Diff

section Reader

def number? (s : Text) : Option Nat :=
  if s.letters ≠ [] ∧ s.letters.all Letter.isDigit then some (Json.digitsValue s.letters) else none

/-- A range of lines: how many lines stand before it and how many are in it. -/
structure Stretch where
  before : Nat
  count : Nat
  deriving DecidableEq, Repr

/-- A range is named by its first line and its count, which is one if it is left out; a range of no
lines is named by the line before it. -/
def Stretch.ofNumbers? : List Nat → Option Stretch
  | [line + 1] => some ⟨line, 1⟩
  | [line, 0] => some ⟨line, 0⟩
  | [line + 1, count] => some ⟨line, count⟩
  | _ => none

def Stretch.read? (s : Text) : Option Stretch :=
  ((s.splitAt ',').mapM number?).bind ofNumbers?

def after? (start s : Text) : Option Text := (s.letters.dropPrefix? start.letters).map Text.mk

def readHeader? (line : Text) : Option (Stretch × Stretch) :=
  match line.splitAt ' ' with
  | [opening, old, new, closing] =>
    if opening = "@@" ∧ closing = "@@" then do
      let old ← (after? "-" old).bind Stretch.read?
      let new ← (after? "+" new).bind Stretch.read?
      return (old, new)
    else none
  | _ => none

/-- A patch half way through: the new lines up to here, the old lines from here on, how many old lines
were read, and how many lines of either side the hunk at hand still holds. -/
structure Patching where
  written : List Text
  ahead : List Text
  read : Nat := 0
  oldLeft : Nat := 0
  newLeft : Nat := 0
  deriving DecidableEq, Repr

namespace Patching

def remove (line : Text) (p : Patching) : Option Patching :=
  match p.ahead, p.oldLeft with
  | next :: rest, left + 1 =>
    if next = line then some { p with ahead := rest, read := p.read + 1, oldLeft := left } else none
  | _, _ => none

def add (line : Text) (p : Patching) : Option Patching :=
  match p.newLeft with
  | left + 1 => some { p with written := p.written ++ [line], newLeft := left }
  | 0 => none

/-- Keeps the old lines up to a hunk, which has to lie ahead and at the same distance on both sides. -/
def enter (old new : Stretch) (p : Patching) : Option Patching :=
  let kept := old.before - p.read
  if p.read ≤ old.before ∧ kept ≤ p.ahead.length ∧ new.before = p.written.length + kept then
    some ⟨p.written ++ p.ahead.take kept, p.ahead.drop kept, old.before, old.count, new.count⟩
  else none

/-- Reads one line of a patch. Between hunks it has to be a header. -/
def step (p : Patching) (line : Text) : Option Patching :=
  if p.oldLeft = 0 ∧ p.newLeft = 0 then
    (readHeader? line).bind fun (old, new) => p.enter old new
  else
    match line.letters with
    | .char ' ' :: rest => (p.remove ⟨rest⟩).bind (add ⟨rest⟩)
    | .char '-' :: rest => p.remove ⟨rest⟩
    | .char '+' :: rest => p.add ⟨rest⟩
    | _ => none

/-- Keeps what no hunk touches any more. The last hunk has to be complete. -/
def finish (p : Patching) : Option (List Text) :=
  if p.oldLeft = 0 ∧ p.newLeft = 0 then some (p.written ++ p.ahead) else none

end Patching

structure Patched where
  oldName : Text
  newName : Text
  lines : List Text
  deriving DecidableEq, Repr

/-- Reads a text as a patch of the old lines. -/
def applyPatch (text : Text) (old : List Text) : Option Patched :=
  match text.outputLines with
  | first :: second :: rest => do
    let oldName ← after? "--- " first
    let newName ← after? "+++ " second
    let p ← rest.foldlM Patching.step { written := [], ahead := old }
    return ⟨oldName, newName, ← p.finish⟩
  | _ => none

end Reader

section Headers

theorem isDigit_ofNat (n : Nat) : ∀ l ∈ (Text.ofInt n).letters, l.isDigit = true := by
  rw [Text.letters_ofNat, List.forall_mem_map]
  exact Json.isDigit_toDigits n

theorem number?_ofNat (n : Nat) : number? (Text.ofInt n) = some n := by
  have hne : (Text.ofInt n).letters ≠ [] := by
    rw [Text.letters_ofNat, Ne, List.map_eq_nil_iff]
    exact Nat.toDigits_ne_nil
  rw [number?, if_pos ⟨hne, List.all_eq_true.mpr (isDigit_ofNat n)⟩, Text.letters_ofNat,
    Json.digitsValue_chars, Nat.ofDigitChars_ten_toDigits]

theorem letters_rangeText (a b : Nat) : ∀ l ∈ (rangeText a b).letters, l.isDigit = true ∨ l = ',' := by
  have hdigits (n : Nat) : ∀ l ∈ (Text.ofInt n).letters, l.isDigit = true ∨ l = ',' :=
    fun l hl => .inl (isDigit_ofNat n l hl)
  have hpair (m n : Nat) :
      ∀ l ∈ (Text.ofInt m ++ "," ++ Text.ofInt n).letters, l.isDigit = true ∨ l = ',' := by
    intro l hl
    simp only [Text.letters_append, List.mem_append] at hl
    rcases hl with (hl | hl) | hl
    · exact hdigits m l hl
    · exact .inr (List.mem_singleton.mp hl)
    · exact hdigits n l hl
  unfold rangeText
  dsimp only
  split
  · exact hdigits (a + 1)
  · split
    · exact hpair a 0
    · exact hpair (a + 1) (b - a)

theorem not_mem_rangeText {c : Char} (hc : (Letter.char c).isDigit = false ∧ c ≠ ',') (a b : Nat) :
    Letter.char c ∉ (rangeText a b).letters := by
  intro h
  rcases letters_rangeText a b _ h with hdigit | hcomma
  · rw [hc.1] at hdigit
    cases hdigit
  · exact hc.2 (Letter.char.inj hcomma)

theorem comma_not_mem_ofNat (n : Nat) : Letter.char ',' ∉ (Text.ofInt n).letters :=
  fun h => absurd (isDigit_ofNat n _ h) (by decide)

theorem splitAt_ofNat (n : Nat) : (Text.ofInt n).splitAt ',' = [Text.ofInt n] := by
  rw [Text.splitAt, Text.cut_of_not_mem (comma_not_mem_ofNat n)]
  rfl

theorem splitAt_pair (m n : Nat) :
    (Text.ofInt m ++ "," ++ Text.ofInt n).splitAt ',' = [Text.ofInt m, Text.ofInt n] := by
  have hletters : (Text.ofInt m ++ "," ++ Text.ofInt n : Text).letters =
      (Text.ofInt m).letters ++ Letter.char ',' :: (Text.ofInt n).letters := by
    rw [Text.letters_append, Text.letters_append, List.append_assoc]
    rfl
  rw [Text.splitAt, hletters, Text.cut_append (comma_not_mem_ofNat m),
    Text.cut_of_not_mem (comma_not_mem_ofNat n)]
  rfl

theorem Stretch.read?_single (n : Nat) : read? (Text.ofInt n) = ofNumbers? [n] := by
  rw [read?, splitAt_ofNat, List.mapM_cons, List.mapM_nil, number?_ofNat]
  rfl

theorem Stretch.read?_pair (m n : Nat) :
    read? (Text.ofInt m ++ "," ++ Text.ofInt n) = ofNumbers? [m, n] := by
  rw [read?, splitAt_pair, List.mapM_cons, List.mapM_cons, List.mapM_nil, number?_ofNat,
    number?_ofNat]
  rfl

/-- A range is read back from the numbers that name it. -/
theorem Stretch.read?_rangeText (a b : Nat) :
    read? (rangeText a b) = some ⟨a, b - a⟩ := by
  unfold rangeText
  dsimp only
  split
  · next hone => rw [read?_single, hone]; rfl
  · split
    · next hnone => rw [read?_pair, hnone]; cases a <;> rfl
    · next hnone =>
      obtain ⟨k, hk⟩ := Nat.exists_eq_succ_of_ne_zero hnone
      rw [read?_pair, hk]
      rfl

theorem after?_append (s t : Text) : after? s (s ++ t) = some t := by
  rw [after?, Text.letters_append, List.dropPrefix?_append_of_beq _ (beq_self_eq_true _)]
  rfl

theorem space_not_mem_range {mark : Char} (hmark : mark ≠ ' ') (a b : Nat) :
    Letter.char ' ' ∉ Letter.char mark :: (rangeText a b).letters := by
  rw [List.mem_cons, not_or]
  exact ⟨fun h => hmark (Letter.char.inj h).symm, not_mem_rangeText (by decide) a b⟩

theorem splitAt_header (a b i j : Nat) :
    ("@@ -" ++ rangeText a b ++ " +" ++ rangeText i j ++ " @@" : Text).splitAt ' ' =
      (["@@", "-" ++ rangeText a b, "+" ++ rangeText i j, "@@"] : List Text) := by
  have hletters : ("@@ -" ++ rangeText a b ++ " +" ++ rangeText i j ++ " @@" : Text).letters =
      [Letter.char '@', Letter.char '@'] ++ Letter.char ' ' ::
        ((Letter.char '-' :: (rangeText a b).letters) ++ Letter.char ' ' ::
          ((Letter.char '+' :: (rangeText i j).letters) ++ Letter.char ' ' ::
            [Letter.char '@', Letter.char '@'])) := by
    simp only [Text.letters_append, List.append_assoc]
    rfl
  rw [Text.splitAt, hletters, Text.cut_append (by decide),
    Text.cut_append (space_not_mem_range (by decide) a b),
    Text.cut_append (space_not_mem_range (by decide) i j), Text.cut_of_not_mem (by decide)]
  rfl

theorem readHeader?_header (a b i j : Nat) :
    readHeader? ("@@ -" ++ rangeText a b ++ " +" ++ rangeText i j ++ " @@") =
      some (⟨a, b - a⟩, ⟨i, j - i⟩) := by
  rw [readHeader?, splitAt_header]
  simp only [and_self, if_true, after?_append, Option.bind_some, Stretch.read?_rangeText]
  rfl

end Headers

section Lines

variable {old new : List Text} {i j m n p q s t : Nat} {bs : List Block}

/-- A patch that has got to the old place `i` and the new place `j`, in a hunk that ends at the places
`s` and `t`. -/
def Patching.upTo (old new : List Text) (i j s t : Nat) : Patching :=
  ⟨new.take j, old.drop i, i, s - i, t - j⟩

theorem Patching.remove_upTo {line : Text} (h : old[i]? = some line) (hi : i < s) :
    (upTo old new i j s t).remove line = some (upTo old new (i + 1) j s t) := by
  obtain ⟨hlt, rfl⟩ := List.getElem?_eq_some_iff.mp h
  obtain ⟨left, hleft⟩ : ∃ left, s - i = left + 1 := ⟨s - (i + 1), by omega⟩
  simp only [remove, upTo, List.drop_eq_getElem_cons hlt, hleft, if_true]
  rw [show s - (i + 1) = left by omega]

theorem Patching.add_upTo {line : Text} (h : new[j]? = some line) (hj : j < t) :
    (upTo old new i j s t).add line = some (upTo old new i (j + 1) s t) := by
  obtain ⟨left, hleft⟩ : ∃ left, t - j = left + 1 := ⟨t - (j + 1), by omega⟩
  simp only [add, upTo, hleft, List.take_add_one, h, Option.toList_some]
  rw [show t - (j + 1) = left by omega]

theorem Patching.step_of_left {p : Patching} (h : ¬ (p.oldLeft = 0 ∧ p.newLeft = 0)) (line : Text) :
    p.step (" " ++ line) = (p.remove line).bind (add line) ∧
      p.step ("-" ++ line) = p.remove line ∧ p.step ("+" ++ line) = p.add line := by
  refine ⟨?_, ?_, ?_⟩ <;> exact if_neg h

theorem run_marked {xs : List Text} (mark : Text) (f : Nat → Patching)
    (hstep : ∀ k line, i ≤ k → k < i + n → xs[k]? = some line →
      (f k).step (mark ++ line) = some (f (k + 1)))
    (hn : i + n ≤ xs.length) :
    (marked mark (part xs i (i + n))).foldlM Patching.step (f i) = some (f (i + n)) := by
  induction n generalizing i with
  | zero => simp [marked, part]
  | succ n ih =>
    have hlt : i < xs.length := by omega
    rw [show i + (n + 1) = i + 1 + n by omega]
    have hpart : part xs i (i + 1 + n) = xs[i] :: part xs (i + 1) (i + 1 + n) := by
      rw [part, part, List.drop_eq_getElem_cons hlt, show i + 1 + n - i = n + 1 by omega,
        Nat.add_sub_cancel_left, List.take_succ_cons]
    rw [hpart, marked, List.map_cons, List.foldlM_cons,
      hstep i xs[i] (Nat.le_refl i) (by omega) (List.getElem?_eq_getElem hlt)]
    exact ih (fun k line hk hkn => hstep k line (by omega) (by omega)) (by omega)

theorem run_append {ls rest : List Text} {before after : Patching}
    (h : ls.foldlM Patching.step before = some after) :
    (ls ++ rest).foldlM Patching.step before = rest.foldlM Patching.step after := by
  rw [List.foldlM_append, h]
  rfl

theorem run_removed (hi : i ≤ p) (hp : p ≤ old.length) (hs : p ≤ s) :
    (marked "-" (part old i p)).foldlM Patching.step (.upTo old new i j s t) =
      some (.upTo old new p j s t) := by
  obtain ⟨n, rfl⟩ := Nat.exists_eq_add_of_le hi
  refine run_marked "-" (fun k => .upTo old new k j s t) (fun k line _ hk hline => ?_) hp
  rw [(Patching.step_of_left (by dsimp only [Patching.upTo]; omega) line).2.1,
    Patching.remove_upTo hline (by omega)]

theorem run_added (hj : j ≤ q) (hq : q ≤ new.length) (ht : q ≤ t) :
    (marked "+" (part new j q)).foldlM Patching.step (.upTo old new i j s t) =
      some (.upTo old new i q s t) := by
  obtain ⟨n, rfl⟩ := Nat.exists_eq_add_of_le hj
  refine run_marked "+" (fun k => .upTo old new i k s t) (fun k line _ hk hline => ?_) hq
  rw [(Patching.step_of_left (by dsimp only [Patching.upTo]; omega) line).2.2,
    Patching.add_upTo hline (by omega)]

theorem run_kept (h : Agree old new i j n) (hi : i + n ≤ old.length) (hs : i + n ≤ s)
    (ht : j + n ≤ t) :
    (marked " " (part old i (i + n))).foldlM Patching.step (.upTo old new i j s t) =
      some (.upTo old new (i + n) (j + n) s t) := by
  have hrun := run_marked " " (fun k => .upTo old new k (j + (k - i)) s t)
    (fun k line hk hkn hline => ?_) hi
  · simpa using hrun
  · obtain ⟨line', hold, hnew⟩ := h (k - i) (by omega)
    rw [Nat.add_sub_cancel' hk] at hold
    obtain rfl := Option.some.inj (hline.symm.trans hold)
    rw [(Patching.step_of_left (by dsimp only [Patching.upTo]; omega) line).1,
      Patching.remove_upTo hline (by omega), Option.bind_some, Patching.add_upTo hnew (by omega),
      show j + (k - i) + 1 = j + (k + 1 - i) by omega]

/-- The lines of a group take a reader from its first places to its last. -/
theorem run_groupLines (h : Covers (old.take s) (new.take t) i j bs) (hs : s ≤ old.length)
    (ht : t ≤ new.length) :
    (groupLines old new s i bs).foldlM Patching.step (.upTo old new i j s t) =
      some (.upTo old new s t s t) := by
  have hlengths : (old.take s).length = s ∧ (new.take t).length = t :=
    ⟨List.length_take_of_le hs, List.length_take_of_le ht⟩
  induction bs generalizing i j with
  | nil =>
    obtain ⟨n, hn, hagree⟩ := h
    obtain ⟨hx, hy⟩ := Prod.mk.inj hn
    rw [hlengths.1] at hx
    rw [hlengths.2] at hy
    subst hx hy
    exact run_kept hagree.of_take hs (Nat.le_refl _) (Nat.le_refl _)
  | cons b bs ih =>
    obtain ⟨⟨n, hn, hagree⟩, hold, hnew, hrest⟩ := h
    obtain ⟨hx, hy⟩ := Prod.mk.inj hn
    have hle := hrest.le_length
    rw [hlengths.1, hlengths.2] at hle
    rw [groupLines, List.append_assoc, List.append_assoc, hx,
      run_append (run_kept hagree.of_take (by omega) (by omega) (by omega)), ← hx, ← hy,
      run_append (run_removed hold (by omega) hle.1), run_append (run_added hnew (by omega) hle.2)]
    exact ih hrest

/-- Between two hunks a header is read that stands at the same distance on both sides. -/
theorem step_header (h : Agree old new i j n) (hi : i + n ≤ old.length) (hj : j + n ≤ new.length) :
    (Patching.upTo old new i j i j).step
        ("@@ -" ++ rangeText (i + n) s ++ " +" ++ rangeText (j + n) t ++ " @@") =
      some (.upTo old new (i + n) (j + n) s t) := by
  have hkept : i + n - i = n := Nat.add_sub_cancel_left i n
  have hroom : i ≤ i + n ∧ n ≤ (old.drop i).length ∧ j + n = (new.take j).length + n := by
    rw [List.length_drop, List.length_take_of_le (by omega)]
    omega
  rw [Patching.step, if_pos (by simp [Patching.upTo]), readHeader?_header, Option.bind_some]
  simp only [Patching.enter, Patching.upTo, hkept, if_pos hroom]
  rw [h.take_drop_eq, ← List.take_add, List.drop_drop]

end Lines

section Groups

variable {α : Type} {xs ys : List α} {i j n : Nat} {g bs : List Block}

theorem Agree.take {a b : Nat} (h : Agree xs ys i j n) (ha : i + n ≤ a) (hb : j + n ≤ b) :
    Agree (xs.take a) (ys.take b) i j n := by
  intro k hk
  obtain ⟨x, hx, hy⟩ := h k hk
  exact ⟨x, by rw [List.getElem?_take_of_lt (by omega), hx],
    by rw [List.getElem?_take_of_lt (by omega), hy]⟩

/-- Blocks may be cut in two anywhere in what agrees between two of them. -/
theorem Covers.split (h : Covers xs ys i j (g ++ bs)) {last : Block} (hlast : g.getLast? = some last) :
    ∃ n, nextPlace xs.length ys.length bs = (last.oldStop + n, last.newStop + n) ∧ ∀ m ≤ n,
      Covers (xs.take (last.oldStop + m)) (ys.take (last.newStop + m)) i j g ∧
        Covers xs ys (last.oldStop + m) (last.newStop + m) bs := by
  induction g generalizing i j with
  | nil => cases hlast
  | cons b g ih =>
    obtain ⟨⟨k, hk, hbefore⟩, hold, hnew, hrest⟩ := h
    obtain ⟨hx, hy⟩ := Prod.mk.inj hk
    cases g with
    | nil =>
      obtain rfl : b = last := Option.some.inj hlast
      obtain ⟨n, hn, hafter⟩ := hrest.gap
      have hle := hafter.le_length hrest.le_length.1 hrest.le_length.2
      refine ⟨n, hn, fun m hm => ⟨⟨⟨k, hk, hbefore.take (by omega) (by omega)⟩, hold, hnew, m, ?_,
        (hafter.mono hm).take (Nat.le_refl _) (Nat.le_refl _)⟩, ?_⟩⟩
      · rw [List.length_take_of_le (by omega), List.length_take_of_le (by omega)]
      · refine hrest.rebase (n := n - m) ?_ (hafter.sub (by omega))
        rw [hn, Prod.mk.injEq]
        omega
    | cons next g =>
      obtain ⟨n, hn, hcut⟩ := ih hrest hlast
      refine ⟨n, hn, fun m hm => ?_⟩
      obtain ⟨hgroup, hothers⟩ := hcut m hm
      have hle := hgroup.le_length
      rw [List.length_take, List.length_take] at hle
      exact ⟨⟨⟨k, hk, hbefore.take (by omega) (by omega)⟩, hold, hnew, hgroup⟩, hothers⟩

/-- Where no block follows within twice the context of another, the context below it is cut off by the
ends of the lists alone, and as much again lies before the next block. -/
theorem Covers.shown_below {last : Block} {c : Nat} (h : Covers xs ys i j bs)
    (hn : nextPlace xs.length ys.length bs = (last.oldStop + n, last.newStop + n))
    (hfar : ∀ next ∈ bs.head?, 2 * c < next.oldStart - last.oldStop) :
    (min xs.length (last.oldStop + c) = last.oldStop + min c n ∧
      min ys.length (last.newStop + c) = last.newStop + min c n) ∧
        ∀ next ∈ bs.head?, last.oldStop + min c n + c ≤ next.oldStart := by
  obtain ⟨hx, hy⟩ := Prod.mk.inj hn
  cases bs with
  | nil =>
    dsimp only at hx hy
    exact ⟨by omega, by simp⟩
  | cons next bs =>
    dsimp only at hx hy
    have hnext := hfar next rfl
    have hle := h.bounds next List.mem_cons_self
    refine ⟨by omega, ?_⟩
    rintro _ ⟨⟩
    omega

def Block.sharesContext (a b : Block) : Bool := b.oldStart - a.oldStop ≤ 2 * shownContext

theorem groupBlocks_eq_splitBy (bs : List Block) :
    groupBlocks bs = bs.splitBy Block.sharesContext := by
  induction bs with
  | nil => rfl
  | cons b bs ih =>
    rw [groupBlocks, ih]
    cases hgroups : bs.splitBy Block.sharesContext with
    | nil =>
      rw [List.splitBy_eq_nil.mp hgroups]
      rfl
    | cons group groups =>
      cases group with
      | nil => exact absurd (hgroups ▸ List.mem_cons_self) (List.nil_notMem_splitBy _ bs)
      | cons next group =>
        dsimp only
        split
        · next hnear =>
          refine (splitBy_cons_joined hgroups ?_).symm
          rintro _ ⟨⟩
          exact decide_eq_true hnear
        · next hfar =>
          refine (splitBy_cons_apart hgroups ?_).symm
          rintro _ ⟨⟩
          exact decide_eq_false hfar

variable {old new : List Text} {gs : List (List Block)}

/-- What is left of the old lines when all hunks were read agrees with the new ones. -/
theorem Covers.finish (h : Covers old new i j []) :
    (Patching.upTo old new i j i j).finish = some new := by
  obtain ⟨n, hn, hagree⟩ := h
  obtain ⟨hx, hy⟩ := Prod.mk.inj hn
  rw [Patching.finish, if_pos (by simp [Patching.upTo])]
  simp only [Patching.upTo]
  rw [hagree.drop_eq hx hy, List.take_append_drop]

/-- Between the last block of one group and the first block of the next there is more than twice the
shown context. -/
theorem far_of_isChain {first last : Block} {rest : List Block} (hne : [] ∉ gs)
    (h : ((first :: rest) :: gs).IsChain fun a b =>
      ∃ ha hb, Block.sharesContext (a.getLast ha) (b.head hb) = false)
    (hlast : (first :: rest).getLast? = some last) :
    ∀ next ∈ gs.flatten.head?, 2 * shownContext < next.oldStart - last.oldStop := by
  cases gs with
  | nil => simp
  | cons g gs =>
    cases g with
    | nil => exact absurd List.mem_cons_self hne
    | cons next g =>
      obtain ⟨ha, hb, hfar⟩ := (List.isChain_cons.mp h).1 _ rfl
      rw [(List.getLast_eq_iff_getLast?_eq_some ha).mpr hlast] at hfar
      rintro _ ⟨⟩
      exact not_le.mp (of_decide_eq_false hfar)

/-- A group under its header is read from any place at which there is room for its context. -/
theorem run_renderGroup {first last : Block} {rest : List Block} {s t : Nat}
    (h : Covers (old.take s) (new.take t) i j (first :: rest))
    (hlast : (first :: rest).getLast? = some last)
    (hs : min old.length (last.oldStop + shownContext) = s)
    (ht : min new.length (last.newStop + shownContext) = t)
    (hroom : i = 0 ∧ j = 0 ∨ i + shownContext ≤ first.oldStart) :
    (renderGroup old new first rest).foldlM Patching.step (.upTo old new i j i j) =
      some (.upTo old new s t s t) := by
  obtain ⟨⟨n, hn, hagree⟩, hrest⟩ := h
  obtain ⟨hx, hy⟩ := Prod.mk.inj hn
  -- the header stands where the context of the group begins
  obtain ⟨k, hk, hold, hnew⟩ : ∃ k ≤ n, first.oldStart - shownContext = i + k ∧
      first.newStart - shownContext = j + k := ⟨first.oldStart - shownContext - i, by omega⟩
  have hcover : Covers (old.take s) (new.take t) (i + k) (j + k) (first :: rest) :=
    ⟨⟨n - k, by rw [Prod.mk.injEq]; omega, hagree.sub (by omega)⟩, hrest⟩
  have hle := hcover.le_length
  rw [List.length_take, List.length_take] at hle
  rw [renderGroup]
  simp only [hlast, Option.getD_some, hold, hnew, hs, ht]
  rw [List.foldlM_cons, step_header (hagree.of_take.mono hk) (by omega) (by omega)]
  exact run_groupLines hcover (by omega) (by omega)

/-- Groups of blocks with more than twice the context between them are read one after the other. -/
theorem run_groups (h : Covers old new i j gs.flatten) (hne : [] ∉ gs)
    (hapart : gs.IsChain fun a b => ∃ ha hb, Block.sharesContext (a.getLast ha) (b.head hb) = false)
    (hroom : ∀ b ∈ gs.flatten.head?, i = 0 ∧ j = 0 ∨ i + shownContext ≤ b.oldStart) :
    ((gs.flatMap fun
        | [] => []
        | b :: bs => renderGroup old new b bs).foldlM Patching.step (.upTo old new i j i j)).bind
      Patching.finish = some new := by
  induction gs generalizing i j with
  | nil => exact h.finish
  | cons g gs ih =>
    cases g with
    | nil => exact absurd List.mem_cons_self hne
    | cons first rest =>
      obtain ⟨last, hlast⟩ : ∃ last, (first :: rest).getLast? = some last :=
        ⟨_, List.getLast?_eq_some_getLast (List.cons_ne_nil first rest)⟩
      have hfar := far_of_isChain (fun hmem => hne (List.mem_cons_of_mem _ hmem)) hapart hlast
      rw [List.flatten_cons] at h
      obtain ⟨n, hn, hcut⟩ := h.split hlast
      obtain ⟨hgroup, hothers⟩ := hcut (min shownContext n) (Nat.min_le_right _ _)
      obtain ⟨⟨hs, ht⟩, hnext⟩ := hothers.shown_below hn hfar
      rw [List.flatMap_cons, run_append (run_renderGroup hgroup hlast hs ht (hroom first rfl))]
      exact ih hothers (fun hmem => hne (List.mem_cons_of_mem _ hmem)) hapart.tail
        fun b hb => .inr (hnext b hb)

/-- What a unified diff shows of a cover is read as a patch that gives the new lines. -/
theorem run_groupBlocks (h : Covers old new 0 0 bs) :
    (((groupBlocks bs).flatMap fun
        | [] => []
        | b :: bs => renderGroup old new b bs).foldlM Patching.step ⟨[], old, 0, 0, 0⟩).bind
      Patching.finish = some new := by
  rw [groupBlocks_eq_splitBy]
  obtain ⟨hflatten, hne, -, hapart⟩ := List.splitBy_eq_iff.mp (rfl : bs.splitBy Block.sharesContext = _)
  exact run_groups (hflatten ▸ h) hne hapart fun _ _ => .inl ⟨rfl, rfl⟩

end Groups

section Written

variable {old new : List Text} {path l : Text} {i stop : Nat} {bs : List Block}

def Solid (l : Text) : Prop := l ≠ ⟨[]⟩ ∧ Letter.char '\n' ∉ l.letters

instance (l : Text) : Decidable (Solid l) := inferInstanceAs (Decidable (_ ∧ _))

theorem Solid.append {s : Text} (hs : Solid s) (hl : Letter.char '\n' ∉ l.letters) : Solid (s ++ l) := by
  refine ⟨fun h => hs.1 ?_, fun h => (List.mem_append.mp h).elim hs.2 hl⟩
  exact congrArg Text.mk (List.append_eq_nil_iff.mp (congrArg Text.letters h)).1

theorem solid_marked {mark : Text} {xs : List Text} (hmark : Solid mark) (h : Text.Unbroken xs)
    (a b : Nat) : ∀ l ∈ marked mark (part xs a b), Solid l :=
  List.forall_mem_map.mpr fun l hl =>
    hmark.append (h l (List.mem_of_mem_drop (List.mem_of_mem_take hl)))

theorem solid_groupLines (hold : Text.Unbroken old) (hnew : Text.Unbroken new) :
    ∀ l ∈ groupLines old new stop i bs, Solid l := by
  induction bs generalizing i with
  | nil => exact solid_marked (by decide) hold i stop
  | cons b bs ih =>
    rw [groupLines]
    simp only [List.forall_mem_append]
    exact ⟨⟨⟨solid_marked (by decide) hold _ _, solid_marked (by decide) hold _ _⟩,
      solid_marked (by decide) hnew _ _⟩, ih⟩

theorem solid_header (a b i j : Nat) :
    Solid ("@@ -" ++ rangeText a b ++ " +" ++ rangeText i j ++ " @@") := by
  have hrange (a b : Nat) := not_mem_rangeText (c := '\n') (by decide) a b
  exact (((Solid.append (s := "@@ -") (by decide) (hrange a b)).append (by decide)).append
    (hrange i j)).append (by decide)

theorem solid_unifiedLines (hold : Text.Unbroken old) (hnew : Text.Unbroken new)
    (hpath : Letter.char '\n' ∉ path.letters) : ∀ l ∈ unifiedLines old new path, Solid l := by
  unfold unifiedLines
  dsimp only
  split
  · exact List.forall_mem_nil _
  · refine List.forall_mem_cons.mpr ⟨.append (by decide) hpath,
      List.forall_mem_cons.mpr ⟨.append (by decide) hpath, fun l hl => ?_⟩⟩
    obtain ⟨group, -, hl⟩ := List.mem_flatMap.mp hl
    cases group with
    | nil => exact absurd hl List.not_mem_nil
    | cons b bs =>
      rcases List.mem_cons.mp hl with rfl | hl
      · exact solid_header _ _ _ _
      · exact solid_groupLines hold hnew l hl

/-- There is a unified diff only between different lines, and its lines are two names and a patch. -/
theorem unifiedLines_of_ne (hne : old ≠ new) (path : Text) :
    ∃ body, unifiedLines old new path = ("--- a/" ++ path) :: ("+++ b/" ++ path) :: body ∧
      (body.foldlM Patching.step ⟨[], old, 0, 0, 0⟩).bind Patching.finish = some new := by
  have haligned := aligned_longestRuns (fun y => !(tooCommon new).contains y) old new
  have hcover := covers_gaps haligned (Nat.zero_le _) (Nat.zero_le _)
    fun _ _ => ⟨Nat.zero_le _, Nat.zero_le _⟩
  unfold unifiedLines
  dsimp only
  split
  · next hgaps => exact absurd (haligned.eq_of_gaps hgaps) hne
  · exact ⟨_, rfl, run_groupBlocks hcover⟩

theorem unifiedLines_self (old : List Text) (path : Text) : unifiedLines old old path = [] := by
  have hgaps := gaps_diagonal 0 0 old.length
  rw [Nat.zero_add, show shift 0 0 _ = diagonal _ from List.map_id _] at hgaps
  unfold unifiedLines
  dsimp only
  rw [longestRuns_self, hgaps]

theorem unified_eq_empty_iff : unified old new path = "" ↔ old = new := by
  refine ⟨fun h => by_contra fun hne => unified_ne_empty hne path h, ?_⟩
  rintro rfl
  rw [unified, unifiedLines_self]
  rfl

end Written

section Patches

variable {old new : List Text} {path : Text}

theorem terminated_cons (l : Text) (ls : List Text) :
    Text.terminated (l :: ls) = l ++ ("\n" ++ Text.terminated ls) := by
  refine congrArg Text.mk ?_
  cases ls with
  | nil => simp [Text.letters_join]; rfl
  | cons m ms =>
    show (Text.join (l :: m :: ms)).letters ++ [Letter.char '\n'] =
      l.letters ++ ([Letter.char '\n'] ++ ((Text.join (m :: ms)).letters ++ [Letter.char '\n']))
    simp [Text.letters_join, List.intercalate_cons_cons]

theorem one_final_newline {ls : List Text} (hne : ls ≠ []) (h : ∀ l ∈ ls, Solid l) :
    (Text.terminated ls).endsWith '\n' = true ∧ (Text.terminated ls).dropLast.endsWith '\n' = false := by
  obtain ⟨init, l, rfl⟩ := (List.eq_nil_or_concat ls).resolve_left hne
  rw [List.concat_eq_append] at h ⊢
  obtain ⟨hl, hbreak⟩ := h l (by simp)
  have htext : Text.terminated (init ++ [l]) = Text.join (init ++ [l]) ++ "\n" := by
    simp [Text.terminated]
  have hdrop : (Text.join (init ++ [l]) ++ "\n").dropLast = Text.join (init ++ [l]) :=
    congrArg Text.mk (List.dropLast_concat (b := Letter.char '\n'))
  rw [htext, hdrop]
  refine ⟨?_, Text.endsWith_join hbreak hl init⟩
  exact beq_iff_eq.mpr (List.getLast?_concat (a := Letter.char '\n'))

/-- A unified diff is empty exactly if the lines are the same; otherwise reading it as a patch of the
old lines gives the new ones, whatever the lines look like. -/
theorem unified_diff_is_patch (o : Options) (old new : List Text) (path : Text) (change : Change)
    (hold : Text.Unbroken old) (hnew : Text.Unbroken new) (hpath : Letter.char '\n' ∉ path.letters)
    (h : Change.between o old new path = some change) :
    (change.text = "" ↔ old = new) ∧
      (old ≠ new →
        (change.text.endsWith '\n' = true ∧ change.text.dropLast.endsWith '\n' = false) ∧
        (∃ body : Text,
          change.text = ("--- a/" ++ path) ++ ("\n" ++ (("+++ b/" ++ path) ++ ("\n" ++ body)))) ∧
        applyPatch change.text old = some ⟨"a/" ++ path, "b/" ++ path, new⟩) := by
  obtain ⟨hs, -, rfl⟩ := Option.map_eq_some_iff.mp h
  refine ⟨unified_eq_empty_iff, fun hne => ?_⟩
  have hsolid := solid_unifiedLines hold hnew hpath
  obtain ⟨body, hlines, hrun⟩ := unifiedLines_of_ne hne path
  refine ⟨one_final_newline (by rw [hlines]; exact List.cons_ne_nil _ _) hsolid,
    ⟨Text.terminated body, ?_⟩, ?_⟩
  · simp only [unified, hlines, terminated_cons]
  · have hread : (unified old new path).outputLines = unifiedLines old new path := by
      refine Text.outputLines_terminated ?_ fun l hl => (hsolid l hl).2
      rw [hlines]
      simp
    have holdName : after? "--- " ("--- a/" ++ path) = some ("a/" ++ path) :=
      after?_append _ ("a/" ++ path)
    have hnewName : after? "+++ " ("+++ b/" ++ path) = some ("b/" ++ path) :=
      after?_append _ ("b/" ++ path)
    obtain ⟨p, hp, hfinish⟩ := Option.bind_eq_some_iff.mp hrun
    simp only [applyPatch, hread, hlines, holdName, hnewName, hp, Option.bind_eq_bind,
      Option.bind_some, hfinish]
    rfl

/-- Lines that look like headers and marks. -/
theorem unified_diff_of_marks_is_patch :
    let old : List Text := ["@@ -1 +1 @@", "--- a/x", "-m"]
    let new : List Text := ["@@ -1 +1 @@", "+++ b/x", "@@ -3,0 +4 @@", "-m"]
    let text : Text := "--- a/x y\n+++ b/x y\n@@ -1,3 +1,4 @@\n @@ -1 +1 @@\n---- a/x\n" ++
      "++++ b/x\n+@@ -3,0 +4 @@\n -m\n"
    Change.between {} old new "x y" = some ⟨"x y", [⟨2, 1, 2, 2⟩], text⟩ ∧
      applyPatch text old = some ⟨"a/x y", "b/x y", new⟩ := by
  intro old new text
  have h : Change.between {} old new "x y" = some ⟨"x y", [⟨2, 1, 2, 2⟩], text⟩ := by decide +kernel
  have hpatch := unified_diff_is_patch {} old new "x y" _ (by decide) (by decide) (by decide) h
  exact ⟨h, (hpatch.2 (by decide)).2.2⟩

end Patches

end Hunkwise.Diff
