import Hunkwise.Proofs.PatchReading
import Hunkwise.Proofs.SteadyHost

/-! The offset and the length that a formatter is told. They are sums over the lines of the buffer,
and the text that the formatter reads is put together elsewhere; still they cut just the lines of the
range out of that text, and ranges next to each other out of stretches next to each other. -/

namespace Hunkwise

section Lines

def ended (ls : List Text) : List Letter := ls.flatMap fun l => l.letters ++ [.char '\n']

theorem ended_append (ls ms : List Text) : ended (ls ++ ms) = ended ls ++ ended ms := by
  simp [ended]

theorem letters_terminated (ls : List Text) : (Text.terminated ls).letters = ended ls := by
  induction ls with
  | nil => rfl
  | cons l ls ih =>
    rw [Diff.terminated_cons, Text.letters_append, Text.letters_append, ih]
    simp [ended]
    rfl

theorem Client.textLength_eq (ls : List Text) : textLength ls = (ended ls).length := by
  induction ls with
  | nil => rfl
  | cons l ls ih => simp [textLength, ended, Text.length] at ih ⊢; omega

/-- The lengths of what is before some lines and of these lines cut them out of the text. -/
theorem take_drop_ended (ls : List Text) {a b : Nat} (hab : a ≤ b) :
    ((ended ls).drop (ended (ls.take a)).length).take (ended (Diff.part ls a b)).length =
      ended (Diff.part ls a b) := by
  have hls : ended ls = ended (ls.take a) ++ (ended (Diff.part ls a b) ++ ended (ls.drop b)) := by
    rw [← ended_append, ← ended_append, Diff.part_append_drop hab, List.take_append_drop]
  rw [hls, List.drop_left, List.take_left]

theorem take_append_part (ls : List Text) {a b : Nat} (hab : a ≤ b) :
    ls.take a ++ Diff.part ls a b = ls.take b := by
  rw [Diff.part, ← List.take_add, Nat.add_sub_cancel' hab]

end Lines

namespace Template

def Plain (ls : List Letter) : Prop := ∀ l ∈ ls, l ≠ '\x7b' ∧ l ≠ '\x7d'

instance (ls : List Letter) : Decidable (Plain ls) :=
  inferInstanceAs (Decidable (∀ l ∈ ls, l ≠ '\x7b' ∧ l ≠ '\x7d'))

def fieldOf (name : Text) : Text := "\x7b" ++ name ++ "\x7d"

/-- A name that is read as it stands: no letter of it ends a name or starts an index, and it is no
number. -/
structure IsName (name : Text) : Prop where
  ne_nil : name.letters ≠ []
  letters : ∀ l ∈ name.letters, l ≠ '\x7b' ∧ l ≠ '\x7d' ∧ l ≠ ':' ∧ l ≠ '!' ∧ l ≠ '[' ∧ l ≠ '.'
  noNumber : indexNumber name.letters = .ok none

variable {machine : Nat → Machine} {values : Values} {expand : List Letter → Except Fault (List Letter)} {name : Text}
  {v : Value} {ls : List Letter}

theorem fillFrom_cons {l : Letter} (hopen : l ≠ '\x7b') (hclose : l ≠ '\x7d') (fuel : Nat)
    (rest : List Letter) :
    fillFrom machine values expand (fuel + 1) (l :: rest) =
      (fillFrom machine values expand fuel rest).map (l :: ·) := by
  rw [fillFrom.eq_def]
  simp only [if_neg hopen, if_neg hclose]
  cases fillFrom machine values expand fuel rest <;> rfl

theorem fillFrom_append (h : Plain ls) (fuel : Nat) (rest : List Letter) :
    fillFrom machine values expand (ls.length + fuel) (ls ++ rest) =
      (fillFrom machine values expand fuel rest).map (ls ++ ·) := by
  induction ls with
  | nil => simp; cases fillFrom machine values expand fuel rest <;> rfl
  | cons l ls ih =>
    obtain ⟨hopen, hclose⟩ := h l List.mem_cons_self
    have hfuel : (l :: ls).length + fuel = ls.length + fuel + 1 := by simp; omega
    rw [hfuel, List.cons_append, fillFrom_cons hopen hclose,
      ih fun m hm => h m (List.mem_cons_of_mem l hm)]
    cases fillFrom machine values expand fuel rest <;> rfl

theorem fillFrom_plain (h : Plain ls) {fuel : Nat} (hfuel : ls.length ≤ fuel) :
    fillFrom machine values expand fuel ls = .ok ls := by
  obtain ⟨k, rfl⟩ := Nat.exists_eq_add_of_le hfuel
  have hfill : fillFrom machine values expand (ls.length + k) (ls ++ []) = _ := fillFrom_append h k []
  rw [List.append_nil] at hfill
  rw [hfill]
  cases k <;> simp [fillFrom, Except.map]

theorem readName_name (hname : ∀ l ∈ ls, l ≠ '\x7b' ∧ l ≠ '\x7d' ∧ l ≠ ':' ∧ l ≠ '!' ∧ l ≠ '[' ∧ l ≠ '.')
    (rest : List Letter) :
    readName false (ls ++ .char '\x7d' :: rest) = some (ls, .char '\x7d', rest) := by
  induction ls with
  | nil => simp [readName]
  | cons l ls ih =>
    obtain ⟨hopen, hclose, hcolon, hmark, hindex, -⟩ := hname l List.mem_cons_self
    simp [readName, hopen, hclose, hcolon, hmark, hindex,
      ih fun m hm => hname m (List.mem_cons_of_mem l hm)]

theorem lookUp_name (hname : IsName name) (hv : values.get? name = some v) (m : Machine) :
    lookUp m values name.letters = .ok v := by
  have hwhole : name.letters.takeWhile inName = name.letters := by
    have hall : ∀ l ∈ name.letters, inName l = true := by
      intro l hl
      obtain ⟨-, -, -, -, hindex, hpoint⟩ := hname.letters l hl
      simp [inName, hindex, hpoint]
    rw [← List.append_nil name.letters, List.takeWhile_append_of_pos hall, List.takeWhile_nil]
  have hempty : name.letters.isEmpty = false := by simp [hname.ne_nil]
  simp only [lookUp, hwhole, hempty, hname.noNumber, hv, List.drop_length]
  cases name.letters.length <;> rfl

theorem fillField_name (hname : IsName name) (hv : values.get? name = some v) (m : Machine) :
    fillField m values expand ⟨name.letters, none, []⟩ = .ok (v.shown m).letters := by
  simp only [fillField, lookUp_name hname hv]
  rfl

/-- The field of a value is filled with the value as it is shown on every machine. -/
theorem fillFrom_field {shown : Text} (hname : IsName name) (hv : values.get? name = some v)
    (hshown : ∀ m, v.shown m = shown) (fuel : Nat) (rest : List Letter) :
    fillFrom machine values expand (fuel + 1) ((fieldOf name).letters ++ rest) =
      (fillFrom machine values expand fuel rest).map (shown.letters ++ ·) := by
  have hfield : readField (name.letters ++ .char '\x7d' :: rest) = some (⟨name.letters, none, []⟩, rest) := by
    simp [readField, readName_name hname.letters]
  have hletters : (fieldOf name).letters ++ rest = .char '\x7b' :: (name.letters ++ .char '\x7d' :: rest) := by
    show ([.char '\x7b'] ++ name.letters ++ [.char '\x7d']) ++ rest = _
    simp
  obtain ⟨l, ls, hls⟩ := List.exists_cons_of_ne_nil hname.ne_nil
  have hopen := (hname.letters l (by simp [hls])).1
  rw [hletters, fillFrom.eq_def]
  simp only [if_pos]
  rw [hls, List.cons_append] at hfield ⊢
  simp only [if_neg hopen, hfield]
  rw [← hls, fillField_name hname hv, hshown]
  cases fillFrom machine values expand fuel rest <;> rfl

theorem fill_field {before after shown : Text} (hbefore : Plain before.letters)
    (hafter : Plain after.letters) (hname : IsName name) (hv : values.get? name = some v)
    (hshown : ∀ m, v.shown m = shown) :
    fill machine values (before ++ fieldOf name ++ after) = .ok (before ++ shown ++ after) := by
  have hlength : (before ++ fieldOf name ++ after).letters.length =
      before.letters.length + (name.letters.length + after.letters.length + 1 + 1) := by
    simp only [fieldOf, Text.letters_append, List.length_append]
    show _ + (1 + _ + 1) + _ = _
    omega
  have hletters : (before ++ fieldOf name ++ after).letters =
      before.letters ++ ((fieldOf name).letters ++ after.letters) := by
    simp
  have hfill : fillTo machine values 2 (before ++ fieldOf name ++ after).letters =
      .ok (before.letters ++ (shown.letters ++ after.letters)) := by
    rw [fillTo, hlength, hletters, fillFrom_append hbefore, fillFrom_field hname hv hshown,
      fillFrom_plain hafter (by omega)]
    rfl
  rw [fill, hfill]
  exact congrArg (fun ls => Except.ok (Text.mk ls)) (List.append_assoc _ _ _).symm

end Template

structure LineRange.Within (r : LineRange) (lines : List Text) : Prop where
  first : 1 ≤ r.startLine
  ordered : r.startLine ≤ r.stopLine
  last : r.stopLine ≤ lines.length

def LineRange.linesOf (r : LineRange) (lines : List Text) : List Text :=
  Diff.part lines (r.startLine - 1).toNat r.stopLine.toNat

theorem getElem?_of_mapM {α β ε : Type} {f : α → Except ε β} {xs : List α} {ys : List β}
    (h : xs.mapM f = .ok ys) {k : Nat} {x : α} (hx : xs[k]? = some x) :
    ∃ y, f x = .ok y ∧ ys[k]? = some y := by
  induction xs generalizing ys k with
  | nil => simp at hx
  | cons z xs ih =>
    rw [List.mapM_cons] at h
    cases hz : f z with
    | error e => simp [hz, bind, Except.bind] at h
    | ok y =>
      cases hrest : xs.mapM f with
      | error e => simp [hz, hrest, bind, Except.bind] at h
      | ok zs =>
        simp only [hz, hrest, bind, Except.bind, pure, Except.pure, Except.ok.injEq] at h
        subst h
        cases k with
        | zero =>
          cases hx
          exact ⟨y, hz, rfl⟩
        | succ k => exact ih hrest hx

theorem Template.getElem?_of_fillAll {machine : Nat → Nat → Machine} {values : Values}
    {templates args : List Text} (h : fillAll machine values templates = .ok args) {k : Nat}
    {template : Text} (hk : templates[k]? = some template) :
    ∃ arg, fill (machine k) values template = .ok arg ∧ args[k]? = some arg := by
  have hplace : templates.zipIdx[k]? = some (template, k) := by
    rw [List.getElem?_zipIdx, hk, Nat.zero_add]
    rfl
  exact getElem?_of_mapM h hplace

namespace Client

open Template

variable {c : Client} {b : Buffer} {lines : List Text} {r r' : LineRange}
  {range : Option LineRange} {offset length : Nat}

/-- The offset and the length that templates are given for a request. -/
structure Extent (b : Buffer) (range : Option LineRange) (offset length : Nat) : Prop where
  offset : Table.get? (values b.path b.lines (range.getD (wholeRange b.lines))) "offset" =
    some (.number offset)
  length : Table.get? (values b.path b.lines (range.getD (wholeRange b.lines))) "length" =
    some (.number length)

theorem isName_offset : IsName "offset" := ⟨by decide, by decide, rfl⟩

theorem isName_length : IsName "length" := ⟨by decide, by decide, rfl⟩

theorem extent_iff : Extent b range offset length ↔
    textLength (upTo b.lines ((range.getD (wholeRange b.lines)).startLine - 1)) = offset ∧
    textLength (between b.lines ((range.getD (wholeRange b.lines)).startLine - 1)
      (range.getD (wholeRange b.lines)).stopLine) = length := by
  constructor
  · rintro ⟨hoffset, hlength⟩
    cases hoffset
    cases hlength
    exact ⟨rfl, rfl⟩
  · rintro ⟨rfl, rfl⟩
    exact ⟨rfl, rfl⟩

theorem extent_within (h : r.Within b.lines) : Extent b (some r) offset length ↔
    (ended (b.lines.take (r.startLine - 1).toNat)).length = offset ∧
    (ended (r.linesOf b.lines)).length = length := by
  obtain ⟨hfirst, hordered, hlast⟩ := h
  obtain ⟨k, hk⟩ := Int.eq_ofNat_of_zero_le (show 0 ≤ r.startLine - 1 by omega)
  obtain ⟨n, hn⟩ := Int.eq_ofNat_of_zero_le (show 0 ≤ r.stopLine by omega)
  rw [extent_iff, Option.getD_some, LineRange.linesOf, hk, hn, upTo,
    clampBound_natCast (by omega), Diff.between_natCast (by omega) (by omega), textLength_eq,
    textLength_eq]
  rfl

/-- The whole file starts at the start of the text and is as long as it. -/
theorem extent_whole (b : Buffer) : Extent b none 0 (Text.terminated b.lines).length := by
  rw [extent_iff, Option.getD_none]
  have hstart : (wholeRange b.lines).startLine - 1 = (0 : Nat) := rfl
  have hstop : (wholeRange b.lines).stopLine = (b.lines.length : Nat) := rfl
  rw [hstart, hstop, upTo, clampBound_natCast (Nat.zero_le _), Diff.between_natCast (Nat.zero_le _)
    le_rfl, textLength_eq, textLength_eq, Text.length, letters_terminated]
  simp [ended, Diff.part]

theorem extent_adjacent {offset' length' : Nat} (hr : r.Within b.lines) (hr' : r'.Within b.lines)
    (hnext : r'.startLine = r.stopLine + 1) (h : Extent b (some r) offset length)
    (h' : Extent b (some r') offset' length') : offset' = offset + length := by
  obtain ⟨rfl, rfl⟩ := (extent_within hr).mp h
  obtain ⟨rfl, -⟩ := (extent_within hr').mp h'
  obtain ⟨hfirst, hordered, -⟩ := hr
  rw [← List.length_append, ← ended_append, LineRange.linesOf, take_append_part _ (by omega), hnext,
    Int.add_sub_cancel]

/-- What templates are given for the offset and the length comes into the arguments. -/
theorem invocation_extent {machine : Nat → Nat → Machine} {i : Invocation}
    (h : Extent b range offset length) (hi : c.invocation machine b range = .ok i) {k : Nat} {before after : Text}
    (hbefore : Plain before.letters) (hafter : Plain after.letters) :
    ((c.templates range)[k]? = some (before ++ fieldOf "offset" ++ after) →
      i.argv[k]? = some (before ++ Text.ofInt offset ++ after)) ∧
    ((c.templates range)[k]? = some (before ++ fieldOf "length" ++ after) →
      i.argv[k]? = some (before ++ Text.ofInt length ++ after)) := by
  have hargv := (Client.invocation_argv hi).2
  constructor <;> intro hk
  · obtain ⟨arg, hfill, harg⟩ := getElem?_of_fillAll hargv hk
    rw [fill_field hbefore hafter isName_offset h.offset fun _ => rfl] at hfill
    cases hfill
    exact harg
  · obtain ⟨arg, hfill, harg⟩ := getElem?_of_fillAll hargv hk
    rw [fill_field hbefore hafter isName_length h.length fun _ => rfl] at hfill
    cases hfill
    exact harg

theorem calls_within (host : Host) (c : Client) (o : Diff.Options) (limit : Option Nat)
    (comparison : Text) (fuel : Nat) {w : Work} (hw : Text.Unbroken w.buffer.lines) :
    ∀ call ∈ Converge.runCalls (c.target host) o limit comparison fuel w,
      call.range.Within call.before.buffer.lines := by
  have hkept : (c.target host).recorded.Keeps o comparison fun s =>
      Text.Unbroken ((c.target host).lines s.1) ∧
        ∀ call ∈ s.2, Converge.Fresh (c.target host) o comparison call :=
    Converge.fresh_kept (target_keepsLines host c)
  have hfresh : ∀ call ∈ Converge.runCalls (c.target host) o limit comparison fuel w,
      Converge.Fresh (c.target host) o comparison call :=
    (Converge.run_invariant (s := (w, [])) hkept ⟨hw, nofun⟩).2
  intro call hcall
  obtain ⟨hunks, -, h, -, -, hspans⟩ := hfresh call hcall
  obtain ⟨line, -, hrange⟩ := hspans.whole
  rw [hrange]
  exact ⟨hspans.first, hspans.ordered, hspans.last⟩

/-- The offset and the length that templates are given for a range of lines that are there cut just
these lines out of the text that the formatter reads. -/
theorem offsets_delimit_lines (c : Client) (b : Buffer) :
    (∀ r : LineRange, r.Within b.lines → ∃ offset length, Extent b (some r) offset length ∧
      ((Text.terminated b.lines).letters.drop offset).take length = ended (r.linesOf b.lines)) ∧
    Extent b none 0 (Text.terminated b.lines).length ∧
    (∀ (r r' : LineRange) (offset length offset' length' : Nat), r.Within b.lines →
      r'.Within b.lines → r'.startLine = r.stopLine + 1 → Extent b (some r) offset length →
      Extent b (some r') offset' length' → offset' = offset + length) ∧
    (∀ machine range offset length i, Extent b range offset length →
      c.invocation machine b range = .ok i →
      i.stdin = some (Text.terminated b.lines) ∧
      ∀ (k : Nat) (before after : Text), Plain before.letters → Plain after.letters →
        ((c.templates range)[k]? = some (before ++ fieldOf "offset" ++ after) →
          i.argv[k]? = some (before ++ Text.ofInt offset ++ after)) ∧
        ((c.templates range)[k]? = some (before ++ fieldOf "length" ++ after) →
          i.argv[k]? = some (before ++ Text.ofInt length ++ after))) ∧
    ∀ host o limit comparison fuel (w : Work), w.buffer = b → Text.Unbroken b.lines →
      ∀ call ∈ Converge.runCalls (c.target host) o limit comparison fuel w,
        call.range.Within call.before.buffer.lines := by
  refine ⟨fun r hr => ?_, extent_whole b, ?_, ?_, ?_⟩
  · refine ⟨_, _, (extent_within hr).mpr ⟨rfl, rfl⟩, ?_⟩
    have := hr.ordered
    rw [letters_terminated]
    exact take_drop_ended _ (by omega)
  · intro r r' offset length offset' length' hr hr' hnext h h'
    exact extent_adjacent hr hr' hnext h h'
  · intro machine range offset length i h hi
    exact ⟨Client.invocation_stdin hi, fun k before after => invocation_extent h hi⟩
  · rintro host o limit comparison fuel w rfl hw
    exact calls_within host c o limit comparison fuel hw

def offsetClient : Client :=
  { formatter := { name := "f", command := ["f"], rangeArgs := some ["--offset={offset}", "{length}"] } }

def threeLines : Buffer := ⟨"/f", ["a=1", "b=2;c=3", "d=4"], true⟩

/-- The last two of three lines, after the first one; and a run that formats the second one. -/
theorem offsets_delimit_lines_three :
    let r : LineRange := ⟨(2, 0), (3, 2)⟩
    r.Within threeLines.lines ∧ Extent threeLines (some r) 4 12 ∧
    ((Text.terminated threeLines.lines).letters.drop 4).take 12 = (Text.ofString "b=2;c=3\nd=4\n").letters ∧
    (∃ i, offsetClient.invocation (fun _ _ => {}) threeLines (some r) = .ok i ∧
      i.stdin = some (Text.terminated threeLines.lines) ∧
      i.argv[1]? = some (Text.ofString "--offset=4") ∧ i.argv[2]? = some (Text.ofString "12")) ∧
    ∃ call ∈ Converge.runCalls (offsetClient.target { answer := fun _ _ => .broken }) {} none "a=1\nd=4" 1
        { buffer := threeLines },
      call.range = ⟨(2, 0), (2, 6)⟩ ∧ call.range.Within call.before.buffer.lines := by
  intro r
  have hr : r.Within threeLines.lines := ⟨by decide, by decide, by decide⟩
  have hfirst : LineRange.Within ⟨(1, 0), (1, 2)⟩ threeLines.lines := ⟨by decide, by decide, by decide⟩
  obtain ⟨hcut, -, hnext, hcommand, hrun⟩ := offsets_delimit_lines offsetClient threeLines
  have hextent : Extent threeLines (some r) (0 + 4) 12 := ⟨rfl, rfl⟩
  obtain ⟨offset, length, h, hslice⟩ := hcut r hr
  obtain rfl := hnext ⟨(1, 0), (1, 2)⟩ r 0 4 offset length hfirst hr rfl ⟨rfl, rfl⟩ h
  have hlength : (length : Int) = 12 := by simpa using h.length.symm.trans hextent.length
  obtain rfl : length = 12 := by omega
  obtain ⟨i, hi⟩ : ∃ i, offsetClient.invocation (fun _ _ => {}) threeLines (some r) = .ok i := ⟨_, rfl⟩
  have hplain : Template.Plain (Text.ofString "--offset=").letters := by decide
  have hnone : Template.Plain (Text.ofString "").letters := by decide
  obtain ⟨hstdin, hargs⟩ := hcommand _ (some r) _ _ i h hi
  refine ⟨hr, h, hslice, ⟨i, hi, hstdin, ?_, ?_⟩, ?_⟩
  · exact (hargs 1 "--offset=" "" hplain hnone).1 rfl
  · exact (hargs 2 "" "" hnone hnone).2 rfl
  · have hcalls := hrun { answer := fun _ _ => .broken } {} none "a=1\nd=4" 1 { buffer := threeLines } rfl (by decide)
    have hranges : (Converge.runCalls (offsetClient.target { answer := fun _ _ => .broken }) {} none "a=1\nd=4" 1
      { buffer := threeLines }).map Converge.Call.range = [⟨(2, 0), (2, 6)⟩] := by
      decide +kernel
    obtain ⟨call, hcall, hrange⟩ := List.mem_map.mp (hranges ▸ List.mem_singleton_self _)
    exact ⟨call, hcall, hrange, hcalls call hcall⟩

end Client

end Hunkwise
