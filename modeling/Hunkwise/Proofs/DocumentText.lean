import Hunkwise.Proofs.DocumentParts
import Hunkwise.Proofs.WrittenText

/-! Documents read back. A document whose numbers are short is written whole, and what is read from
its text is the document itself with its texts joined: nothing else of it can change on the way
through a file. -/

namespace Hunkwise.Json

variable {v w : Json} {c : Char} {ls rest : List Letter}

mutual

/-- What a document is read back as: its halves are joined, and of keys that are then the same the
later wins. -/
def stored : Json → Json
  | .str s => .str s.joined
  | .arr items => .arr (storedItems items)
  | .obj fs => .object (storedFields fs)
  | v => v

def storedItems : List Json → List Json
  | [] => []
  | v :: vs => v.stored :: storedItems vs

def storedFields : List (Text × Json) → Fields
  | [] => []
  | (key, v) :: fs => (key.joined, v.stored) :: storedFields fs

end

theorem storedItems_eq (items : List Json) : storedItems items = items.map stored := by
  induction items with
  | nil => rfl
  | cons v vs ih => rw [storedItems, ih, List.map_cons]

theorem storedFields_eq (fs : Fields) :
    storedFields fs = fs.map fun (key, v) => (key.joined, v.stored) := by
  induction fs with
  | nil => rfl
  | cons e fs ih => rw [storedFields, ih, List.map_cons]

/-- Keys that a file keeps as they are, and apart. -/
structure KeepsKeys (fs : Fields) : Prop where
  distinct : Table.Distinct fs
  lasting : ∀ key ∈ fs.keys, key.joined = key

theorem KeepsKeys.map {fs : Fields} (h : KeepsKeys fs) (f : Json → Json) :
    KeepsKeys (fs.map fun (key, v) => (key, f v)) where
  distinct := by rw [Table.Distinct, Table.keys_map]; exact h.distinct
  lasting := by rw [Table.keys_map]; exact h.lasting

theorem stored_obj_of_keepsKeys {fs : Fields} (h : KeepsKeys fs) :
    (Json.obj fs).stored = .obj (fs.map fun e => (e.1, e.2.stored)) := by
  have hfields : storedFields fs = fs.map fun e => (e.1, e.2.stored) := by
    rw [storedFields_eq]
    exact List.map_congr_left fun e he =>
      Prod.ext (h.lasting e.1 (List.mem_map_of_mem he)) rfl
  rw [stored, hfields, object, Table.update_nil (h.map stored).distinct]

/-- A document without pairs of halves is read back as it is. -/
theorem stored_eq_self (h : Each (Kept fun s => s.joined = s) v) : v.stored = v := by
  induction h with
  | @intro v here inside ih =>
    cases v with
    | str s => exact congrArg Json.str here.texts
    | arr items =>
      have hitems : items.map stored = items := (List.map_congr_left ih).trans (List.map_id' items)
      rw [stored, storedItems_eq, hitems]
    | obj fs =>
      have hfields : (fs.map fun (key, v) => (key, stored v)) = fs := by
        conv_rhs => rw [← List.map_id' fs]
        exact List.map_congr_left fun e he => Prod.ext rfl (ih e.2 (List.mem_map_of_mem he))
      rw [stored_obj_of_keepsKeys ⟨here.keyed, here.texts⟩, hfields]
    | _ => rfl

theorem each_short_stored (h : Each (fun w => w.isLong = false) v) :
    Each (fun w => w.isLong = false) v.stored := by
  induction h with
  | @intro v here inside ih =>
    cases v with
    | arr items =>
      rw [stored, storedItems_eq]
      refine each_arr.mpr ⟨rfl, fun w hw => ?_⟩
      obtain ⟨u, hu, rfl⟩ := List.mem_map.mp hw
      exact ih u hu
    | obj fs =>
      rw [stored, storedFields_eq]
      refine each_obj.mpr ⟨rfl, fun e he => ?_⟩
      obtain ⟨d, hd, rfl⟩ := List.mem_map.mp ((Table.mem_update he).resolve_left List.not_mem_nil)
      exact ih d.2 (List.mem_map_of_mem hd)
    | _ => exact each_scalar here rfl

theorem height_stored_le (v : Json) : v.stored.height ≤ v.height := by
  induction v using induction_parts with
  | step v ih =>
    cases v with
    | arr items =>
      rw [stored, storedItems_eq]
      refine Nat.succ_le_succ (itemsHeight_le.mpr fun w hw => ?_)
      obtain ⟨u, hu, rfl⟩ := List.mem_map.mp hw
      exact (ih u hu).trans (itemsHeight_le.mp (Nat.le_refl _) u hu)
    | obj fs =>
      rw [stored, storedFields_eq]
      refine height_object_le fun e he => ?_
      obtain ⟨d, hd, rfl⟩ := List.mem_map.mp he
      exact (ih d.2 (List.mem_map_of_mem hd)).trans (fieldsHeight_le.mp (Nat.le_refl _) d hd)
    | _ => exact Nat.le_refl _

def marks : List Char := [' ', '\t', '\n', '\r', '"', '[', ']', '\x7b', '\x7d', ',', ':']

theorem skipGaps_cons (h : isGap c = false) (ls : List Letter) :
    skipGaps (.char c :: ls) = .char c :: ls :=
  List.dropWhile_cons_of_neg (by rw [h]; exact Bool.false_ne_true)

theorem isGap_of_not_mem (h : c ∉ marks) : isGap c = false := by
  simp only [marks, List.mem_cons, not_or] at h
  simp [isGap, h]

theorem skipGaps_newLine (d : Nat) (ls : List Letter) :
    skipGaps ((newLine d).map .char ++ ls) = skipGaps ls := by
  refine List.dropWhile_append_of_pos fun l hl => ?_
  obtain ⟨c, hc, rfl⟩ := List.mem_map.mp hl
  rcases List.mem_cons.mp hc with rfl | hc
  · rfl
  · rw [List.eq_of_mem_replicate hc]
    rfl

/-- What is read as an atom starts with no mark. -/
theorem head_of_readAtom {r : Json × List Letter} (h : readAtom ls = .ok r) :
    ∃ c ls', ls = .char c :: ls' ∧ c ∉ marks := by
  have hdigit {negative : Bool} {ls : List Letter} (h : readUnsigned negative ls = .ok r) :
      ∃ c ls', ls = .char c :: ls' ∧ c ∉ marks := by
    obtain ⟨c, ls', rfl, hc⟩ := head_of_readUnsigned h
    refine ⟨c, ls', rfl, fun hmem => ?_⟩
    have hmarks : marks.all (fun c => !c.isDigit) = true := by decide
    have hnot := List.all_eq_true.mp hmarks c hmem
    rw [hc] at hnot
    cases hnot
  unfold readAtom at h
  split at h
  · exact ⟨'n', _, rfl, by decide⟩
  · exact ⟨'t', _, rfl, by decide⟩
  · exact ⟨'f', _, rfl, by decide⟩
  · exact ⟨'N', _, rfl, by decide⟩
  · exact ⟨'I', _, rfl, by decide⟩
  · exact ⟨'-', _, rfl, by decide⟩
  · exact ⟨'-', _, rfl, by decide⟩
  · exact hdigit h

theorem readValue_atom {r : Json × List Letter} (h : readAtom ls = .ok r) (fuel room : Nat) :
    readValue (fuel + 1) room ls = .ok r := by
  obtain ⟨c, ls', rfl, hc⟩ := head_of_readAtom h
  have hgap := isGap_of_not_mem hc
  simp only [marks, List.mem_cons, not_or] at hc
  simp [readValue, skipGaps_cons hgap, hc, h]

/-- A document is read back wherever it is written, with what follows left. -/
structure Reads (v : Json) : Prop where
  longer : ∀ d rest, rest.length < (writeIndented d v rest).length
  head : ∀ d rest, ∃ c cs, writeIndented d v rest = c :: cs ∧ isGap c = false ∧ c ≠ ']' ∧ c ≠ '\x7d'
  read : ∀ {fuel room d rest}, EndsNumber (rest.map .char) → v.height ≤ room →
    2 * (writeIndented d v rest).length ≤ fuel →
    readValue fuel room ((writeIndented d v rest).map .char) = .ok (v.stored, rest.map .char)

theorem reads_atom (hwrite : ∀ d rest, writeIndented d v rest = writeScalar v ++ rest)
    (hatom : ∀ rest, EndsNumber rest → readAtom ((writeScalar v).map .char ++ rest) = .ok (v, rest))
    (hstored : v.stored = v) : Reads v := by
  obtain ⟨c, ls, hls, hc⟩ := head_of_readAtom (hatom [] nofun)
  rw [List.append_nil, List.map_eq_cons_iff] at hls
  obtain ⟨c', cs, hcs, hchar, -⟩ := hls
  cases hchar
  refine ⟨fun d rest => ?_, fun d rest => ?_, fun {fuel room d rest} hrest _ hfuel => ?_⟩
  · rw [hwrite, hcs, List.length_append, List.length_cons]
    omega
  · refine ⟨c, cs ++ rest, by rw [hwrite, hcs]; rfl, isGap_of_not_mem hc, ?_, ?_⟩ <;>
      (rintro rfl; exact hc (by decide))
  · obtain ⟨fuel, rfl⟩ : ∃ n, fuel = n + 1 := ⟨fuel - 1, by
      rw [hwrite, hcs, List.length_append, List.length_cons] at hfuel
      omega⟩
    rw [hwrite, List.map_append, hstored]
    exact readValue_atom (hatom _ hrest) fuel room

theorem endsNumber_writeItems (d : Nat) (items : List Json) (rest : List Char) :
    EndsNumber ((writeItems d items rest).map .char) := by
  cases items <;> (rintro l hl; cases hl; decide)

theorem endsNumber_writeMembers (d : Nat) (fs : List (Text × Json)) (rest : List Char) :
    EndsNumber ((writeMembers d fs rest).map .char) := by
  cases fs <;> (rintro l hl; cases hl; decide)

theorem longer_writeItems {items : List Json} (h : ∀ w ∈ items, Reads w) (d : Nat)
    (rest : List Char) : rest.length < (writeItems d items rest).length := by
  induction items with
  | nil =>
    rw [writeItems, List.length_append, List.length_cons]
    omega
  | cons item items ih =>
    have hitem := (h item List.mem_cons_self).longer (d + 1) (writeItems d items rest)
    have hitems := ih fun w hw => h w (List.mem_cons_of_mem _ hw)
    rw [writeItems, List.length_append]
    omega

theorem longer_writeMembers {fs : List (Text × Json)} (h : ∀ e ∈ fs, Reads e.2) (d : Nat)
    (rest : List Char) : rest.length < (writeMembers d fs rest).length := by
  induction fs with
  | nil =>
    rw [writeMembers, List.length_append, List.length_cons]
    omega
  | cons e fs ih =>
    have hvalue := (h e List.mem_cons_self).longer (d + 1) (writeMembers d fs rest)
    have hfields := ih fun w hw => h w (List.mem_cons_of_mem _ hw)
    rw [writeMembers, List.length_append, List.length_cons, List.length_cons]
    omega

/-- The letters of a value as they are read, gaps before them skipped. -/
theorem Reads.skipGaps (h : Reads v) (d : Nat) (rest : List Char) :
    skipGaps ((writeIndented d v rest).map .char) = (writeIndented d v rest).map .char := by
  obtain ⟨c, cs, hcs, hgap, -⟩ := h.head d rest
  rw [hcs]
  exact skipGaps_cons hgap _

/-- A new line before a value makes no difference. -/
theorem readValue_newLine (fuel room d : Nat) (ls : List Letter) :
    readValue fuel room ((newLine d).map .char ++ ls) = readValue fuel room ls := by
  cases fuel with
  | zero => rfl
  | succ fuel => simp only [readValue, skipGaps_newLine]

theorem readItems_newLine (fuel room d : Nat) (ls : List Letter) :
    readItems fuel room ((newLine d).map .char ++ ls) = readItems fuel room ls := by
  cases fuel with
  | zero => rfl
  | succ fuel => simp only [readItems, readValue_newLine]

theorem readMembers_newLine (fuel room d : Nat) (ls : List Letter) :
    readMembers fuel room ((newLine d).map .char ++ ls) = readMembers fuel room ls := by
  cases fuel with
  | zero => rfl
  | succ fuel => simp only [readMembers, skipGaps_newLine]

theorem readItems_written {item : Json} {items : List Json} (hreads : ∀ w ∈ item :: items, Reads w)
    {fuel room d : Nat} {rest : List Char} (hroom : ∀ w ∈ item :: items, w.height ≤ room)
    (hfuel : 2 * (writeIndented (d + 1) item (writeItems d items rest)).length < fuel) :
    readItems fuel room ((writeIndented (d + 1) item (writeItems d items rest)).map .char) =
      .ok ((item :: items).map stored, rest.map .char) := by
  induction items generalizing item fuel with
  | nil =>
    obtain ⟨fuel, rfl⟩ : ∃ n, fuel = n + 1 := ⟨fuel - 1, by omega⟩
    rw [readItems, (hreads item List.mem_cons_self).read (endsNumber_writeItems d [] rest)
      (hroom item List.mem_cons_self) (Nat.le_of_lt_succ hfuel), ok_bind]
    dsimp only
    rw [writeItems, List.map_append, skipGaps_newLine]
    rfl
  | cons next items ih =>
    obtain ⟨fuel, rfl⟩ : ∃ n, fuel = n + 1 := ⟨fuel - 1, by omega⟩
    have hread := hreads item List.mem_cons_self
    have hshorter := hread.longer (d + 1) (writeItems d (next :: items) rest)
    have hnext : 2 * (writeIndented (d + 1) next (writeItems d items rest)).length < fuel := by
      have hlength : (writeIndented (d + 1) next (writeItems d items rest)).length
          < (writeItems d (next :: items) rest).length := by
        rw [writeItems, List.length_append, List.length_cons]
        omega
      omega
    rw [readItems, hread.read (endsNumber_writeItems d (next :: items) rest)
      (hroom item List.mem_cons_self) (Nat.le_of_lt_succ hfuel), ok_bind]
    dsimp only
    rw [writeItems, List.map_append, List.map_cons, List.cons_append, skipGaps_cons rfl]
    simp only [readItems_newLine]
    rw [ih (fun w hw => hreads w (List.mem_cons_of_mem _ hw))
      (fun w hw => hroom w (List.mem_cons_of_mem _ hw)) hnext]
    rfl

theorem readValue_blank (fuel room : Nat) (ls : List Letter) :
    readValue fuel room (.char ' ' :: ls) = readValue fuel room ls := by
  cases fuel with
  | zero => rfl
  | succ fuel => simp only [readValue, show skipGaps (.char ' ' :: ls) = skipGaps ls from rfl]

theorem readMembers_key {key : Text} {fuel room : Nat} {cs : List Char}
    (hfuel : (writeText key).length ≤ fuel) {v : Json}
    (hvalue : readValue fuel room (cs.map .char) = .ok (v, rest)) :
    readMembers (fuel + 1) room ((writeText key ++ ':' :: ' ' :: cs).map .char) =
      match skipGaps rest with
      | .char ',' :: rest => do
        let (fs, rest) ← readMembers fuel room rest
        return ((key.joined, v) :: fs, rest)
      | .char '\x7d' :: rest => return ([(key.joined, v)], rest)
      | _ => throw .malformed := by
  have hkey := length_lt_writeText key
  obtain ⟨ls, hls, hread⟩ := readText_written key ((':' :: ' ' :: cs).map .char)
    (by omega : key.length < fuel)
  rw [List.map_append, hls, readMembers, skipGaps_cons rfl]
  simp only [hread, ok_bind, List.map_cons, skipGaps_cons (c := ':') rfl, readValue_blank]
  rewrite [hvalue]
  rfl

theorem readMembers_written {key : Text} {fs : List (Text × Json)}
    (hreads : ∀ e ∈ (key, v) :: fs, Reads e.2) {fuel room d : Nat} {rest : List Char}
    (hroom : ∀ e ∈ (key, v) :: fs, e.2.height ≤ room)
    (hfuel : 2 * (writeText key
      ++ ':' :: ' ' :: writeIndented (d + 1) v (writeMembers d fs rest)).length < fuel) :
    readMembers fuel room ((writeText key
        ++ ':' :: ' ' :: writeIndented (d + 1) v (writeMembers d fs rest)).map .char) =
      .ok (storedFields ((key, v) :: fs), rest.map .char) := by
  induction fs generalizing key v fuel with
  | nil =>
    rw [List.length_append, List.length_cons, List.length_cons] at hfuel
    obtain ⟨fuel, rfl⟩ : ∃ n, fuel = n + 1 := ⟨fuel - 1, by omega⟩
    have hread : Reads v := hreads _ List.mem_cons_self
    rw [readMembers_key (by omega) (hread.read (endsNumber_writeMembers d [] rest)
      (hroom _ List.mem_cons_self) (by omega))]
    rw [writeMembers, List.map_append, skipGaps_newLine]
    rfl
  | cons e fs ih =>
    obtain ⟨next, w⟩ := e
    rw [List.length_append, List.length_cons, List.length_cons] at hfuel
    obtain ⟨fuel, rfl⟩ : ∃ n, fuel = n + 1 := ⟨fuel - 1, by omega⟩
    have hread : Reads v := hreads _ List.mem_cons_self
    have hshorter := hread.longer (d + 1) (writeMembers d ((next, w) :: fs) rest)
    have hnext : 2 * (writeText next
        ++ ':' :: ' ' :: writeIndented (d + 1) w (writeMembers d fs rest)).length < fuel := by
      have hlength : (writeText next
          ++ ':' :: ' ' :: writeIndented (d + 1) w (writeMembers d fs rest)).length
          < (writeMembers d ((next, w) :: fs) rest).length := by
        simp only [writeMembers, List.length_append, List.length_cons]
        omega
      omega
    rw [readMembers_key (by omega) (hread.read (endsNumber_writeMembers d ((next, w) :: fs) rest)
      (hroom _ List.mem_cons_self) (by omega))]
    rw [writeMembers, List.append_assoc, List.map_append, List.map_cons, List.cons_append,
      skipGaps_cons rfl]
    simp only [readMembers_newLine]
    rw [ih (fun e he => hreads e (List.mem_cons_of_mem _ he))
      (fun e he => hroom e (List.mem_cons_of_mem _ he)) hnext]
    rfl

theorem reads_str (s : Text) : Reads (.str s) := by
  have hlength := length_lt_writeText s
  have hwrite (d : Nat) (rest : List Char) :
      writeIndented d (.str s) rest = writeText s ++ rest := rfl
  refine ⟨fun d rest => ?_, fun d rest => ?_, fun {fuel room d rest} _ _ hfuel => ?_⟩
  · rw [hwrite, List.length_append]
    omega
  · exact ⟨'"', _, hwrite d rest, rfl, by decide, by decide⟩
  · rw [hwrite, List.length_append] at hfuel
    obtain ⟨fuel, rfl⟩ : ∃ n, fuel = n + 1 := ⟨fuel - 1, by omega⟩
    obtain ⟨ls, hls, hread⟩ := readText_written s (rest.map .char) (by omega : s.length < fuel)
    rw [hwrite, List.map_append, hls, readValue, skipGaps_cons rfl]
    simp only [hread, ok_bind]
    rfl

theorem reads_empty {a b : Char} (hwrite : ∀ d rest, writeIndented d v rest = a :: b :: rest)
    (hheight : v.height = 1) (ha : isGap a = false ∧ a ≠ ']' ∧ a ≠ '\x7d')
    (hread : ∀ fuel room ls,
      readValue (fuel + 1) (room + 1) (.char a :: .char b :: ls) = .ok (v.stored, ls)) :
    Reads v := by
  refine ⟨fun d rest => ?_, fun d rest => ?_, fun {fuel room d rest} _ hroom hfuel => ?_⟩
  · rw [hwrite, List.length_cons, List.length_cons]
    omega
  · exact ⟨a, b :: rest, hwrite d rest, ha⟩
  · rw [hwrite, List.length_cons] at hfuel
    obtain ⟨fuel, rfl⟩ : ∃ n, fuel = n + 1 := ⟨fuel - 1, by omega⟩
    obtain ⟨room, rfl⟩ : ∃ n, room = n + 1 := ⟨room - 1, by omega⟩
    rw [hwrite]
    exact hread fuel room _

theorem reads_arr {items : List Json} (h : ∀ w ∈ items, Reads w) : Reads (.arr items) := by
  cases items with
  | nil => exact reads_empty (fun _ _ => rfl) rfl (by decide) fun _ _ _ => rfl
  | cons item items =>
    have hitem := h item List.mem_cons_self
    refine ⟨fun d rest => ?_, fun d rest => ?_, fun {fuel room d rest} _ hroom hfuel => ?_⟩
    · have hlonger := hitem.longer (d + 1) (writeItems d items rest)
      have hitems := longer_writeItems (fun w hw => h w (List.mem_cons_of_mem _ hw)) d rest
      rw [writeIndented, List.length_append]
      omega
    · exact ⟨'[', _, rfl, rfl, by decide, by decide⟩
    · rw [height] at hroom
      obtain ⟨room, rfl⟩ : ∃ n, room = n + 1 := ⟨room - 1, by omega⟩
      rw [writeIndented, List.length_append, List.length_cons] at hfuel
      obtain ⟨fuel, rfl⟩ : ∃ n, fuel = n + 1 := ⟨fuel - 1, by omega⟩
      have hread := readItems_written h (itemsHeight_le.mp (Nat.le_of_succ_le_succ hroom))
        (by omega : 2 * (writeIndented (d + 1) item (writeItems d items rest)).length < fuel)
      obtain ⟨c, cs, hcs, hgap, hclose, -⟩ := hitem.head (d + 1) (writeItems d items rest)
      rw [writeIndented, List.map_append, List.map_cons, List.cons_append, readValue,
        skipGaps_cons rfl]
      simp only [skipGaps_newLine]
      rw [hcs] at hread ⊢
      rw [List.map_cons] at hread ⊢
      rw [skipGaps_cons hgap]
      split
      · next hzero => exact absurd hzero (Nat.succ_ne_zero room)
      · next hchar => exact absurd (Letter.char.inj (List.cons.inj hchar).1) hclose
      · next hroom _ =>
        cases hroom
        rw [hread, stored, storedItems_eq]
        rfl

theorem reads_obj {fs : Fields} (h : ∀ e ∈ fs, Reads e.2) : Reads (.obj fs) := by
  cases fs with
  | nil => exact reads_empty (fun _ _ => rfl) rfl (by decide) fun _ _ _ => rfl
  | cons e fs =>
    obtain ⟨key, v⟩ := e
    have hvalue : Reads v := h _ List.mem_cons_self
    refine ⟨fun d rest => ?_, fun d rest => ?_, fun {fuel room d rest} _ hroom hfuel => ?_⟩
    · have hlonger := hvalue.longer (d + 1) (writeMembers d fs rest)
      have hfields := longer_writeMembers (fun e he => h e (List.mem_cons_of_mem _ he)) d rest
      rw [writeIndented, List.length_append, List.length_cons, List.length_cons]
      omega
    · exact ⟨'\x7b', _, rfl, rfl, by decide, by decide⟩
    · rw [height] at hroom
      obtain ⟨room, rfl⟩ : ∃ n, room = n + 1 := ⟨room - 1, by omega⟩
      rw [writeIndented, List.append_assoc, List.cons_append, List.length_cons,
        List.length_append] at hfuel
      obtain ⟨fuel, rfl⟩ : ∃ n, fuel = n + 1 := ⟨fuel - 1, by omega⟩
      have hinside : 2 * (writeText key
          ++ ':' :: ' ' :: writeIndented (d + 1) v (writeMembers d fs rest)).length < fuel := by omega
      have hread := readMembers_written h (fieldsHeight_le.mp (Nat.le_of_succ_le_succ hroom)) hinside
      rw [writeIndented, List.append_assoc, List.map_append, List.map_cons, List.cons_append,
        readValue, skipGaps_cons rfl]
      simp only [skipGaps_newLine]
      obtain ⟨ls, hls, -⟩ := readText_written key
        ((':' :: ' ' :: writeIndented (d + 1) v (writeMembers d fs rest)).map .char)
        (Nat.lt_succ_self _)
      rw [List.map_append, hls] at hread ⊢
      rw [skipGaps_cons rfl]
      show (readMembers fuel room (.char '"' :: ls) >>= _) = _
      rw [hread]
      rfl

/-- A document whose numbers are short is read back. -/
theorem reads (h : Each (fun w => w.isLong = false) v) : Reads v := by
  induction h with
  | @intro v here inside ih =>
    cases v with
    | null => exact reads_atom (fun _ _ => rfl) (fun _ _ => rfl) rfl
    | bool b => cases b <;> exact reads_atom (fun _ _ => rfl) (fun _ _ => rfl) rfl
    | int n => exact reads_atom (fun _ _ => rfl) (fun _ hrest => readAtom_writeInt here hrest) rfl
    | float x => exact reads_atom (fun _ _ => rfl) (fun _ hrest => readAtom_render x hrest) rfl
    | str s => exact reads_str s
    | arr items => exact reads_arr ih
    | obj fs => exact reads_obj fun e he => ih e.2 (List.mem_map_of_mem he)

/-- The text of a document is read back as what can be stored of it. -/
theorem parse_pretty (h : Each (fun w => w.isLong = false) v) {room : Nat} (hroom : v.height ≤ room) :
    parse room (.ofChars v.pretty) = .ok v.stored := by
  have hfuel : 2 * (writeIndented 0 v []).length ≤ 2 * (Text.ofChars v.pretty).length + 2 := by
    rw [Text.length, Text.ofChars, List.length_map, pretty]
    omega
  have hread := (reads h).read (show EndsNumber (([] : List Char).map .char) from endsNumber_nil) hroom hfuel
  unfold parse
  rw [show (Text.ofChars v.pretty).letters = (writeIndented 0 v []).map .char from rfl, hread]
  rfl

theorem stoppedItems?_eq_none {room d : Nat} {lead : List Char} {items : List Json} :
    stoppedItems? room d lead items = none ↔
      ∀ w ∈ items, room ≠ 0 ∧ w.stopped? room (d + 1) = none := by
  induction items generalizing lead with
  | nil => exact ⟨fun _ => nofun, fun _ => rfl⟩
  | cons item items ih =>
    rw [stoppedItems?, List.forall_mem_cons]
    by_cases hroom : room = 0
    · rw [if_pos hroom]
      exact ⟨nofun, fun h => absurd hroom h.1.1⟩
    rw [if_neg hroom]
    cases hitem : item.stopped? room (d + 1) with
    | some stop => exact ⟨nofun, fun h => nomatch h.1.2⟩
    | none =>
      dsimp only
      rw [Option.map_eq_none_iff, ih]
      exact ⟨fun h => ⟨⟨hroom, rfl⟩, h⟩, fun h => h.2⟩

theorem stoppedMembers?_eq_none {room d : Nat} {lead : List Char} {fs : List (Text × Json)} :
    stoppedMembers? room d lead fs = none ↔
      ∀ e ∈ fs, room ≠ 0 ∧ e.2.stopped? room (d + 1) = none := by
  induction fs generalizing lead with
  | nil => exact ⟨fun _ => nofun, fun _ => rfl⟩
  | cons e fs ih =>
    rw [stoppedMembers?, List.forall_mem_cons]
    by_cases hroom : room = 0
    · rw [if_pos hroom]
      exact ⟨nofun, fun h => absurd hroom h.1.1⟩
    rw [if_neg hroom]
    cases hvalue : e.2.stopped? room (d + 1) with
    | some stop => exact ⟨nofun, fun h => nomatch h.1.2⟩
    | none =>
      dsimp only
      rw [Option.map_eq_none_iff, ih]
      exact ⟨fun h => ⟨⟨hroom, rfl⟩, h⟩, fun h => h.2⟩

/-- What lies in a container ends in the room that the container leaves. -/
theorem inside_stopped_iff (room d : Nat) {w : Json}
    (ih : 1 ≤ room - 1 → (w.stopped? (room - 1) d = none ↔
      Each (fun u => u.isLong = false) w ∧ w.height ≤ room - 1)) :
    (room - 1 ≠ 0 ∧ w.stopped? (room - 1) d = none) ↔
      Each (fun u => u.isLong = false) w ∧ w.height ≤ room - 1 := by
  by_cases hroom : room - 1 = 0
  · have := w.height_pos
    exact ⟨fun h => absurd hroom h.1, fun h => by omega⟩
  · rw [ih (by omega)]
    exact and_iff_right hroom

/-- Writing goes to the end of a document exactly if its numbers are short and it is not too high. -/
theorem stopped?_eq_none {room d : Nat} (hroom : 1 ≤ room) :
    v.stopped? room d = none ↔ Each (fun w => w.isLong = false) v ∧ v.height ≤ room := by
  induction v using induction_parts generalizing room d with
  | step v ih =>
    cases v with
    | int n =>
      rw [stopped?]
      cases hlong : (Json.int n).isLong with
      | true => exact ⟨nofun, fun h => nomatch hlong.symm.trans h.1.here⟩
      | false => exact ⟨fun _ => ⟨each_scalar hlong rfl, hroom⟩, fun _ => rfl⟩
    | arr items =>
      have hitem (w : Json) (hw : w ∈ items) :=
        inside_stopped_iff room (d + 1) fun h => ih w hw h
      rw [stopped?, stoppedItems?_eq_none, each_arr, height_arr_le hroom]
      exact ⟨fun h => ⟨⟨rfl, fun w hw => ((hitem w hw).mp (h w hw)).1⟩,
          fun w hw => ((hitem w hw).mp (h w hw)).2⟩,
        fun h w hw => (hitem w hw).mpr ⟨h.1.2 w hw, h.2 w hw⟩⟩
    | obj fs =>
      have hfield (e : Text × Json) (he : e ∈ fs) :=
        inside_stopped_iff room (d + 1) fun h => ih e.2 (List.mem_map_of_mem he) h
      rw [stopped?, stoppedMembers?_eq_none, each_obj, height_obj_le hroom]
      exact ⟨fun h => ⟨⟨rfl, fun e he => ((hfield e he).mp (h e he)).1⟩,
          fun e he => ((hfield e he).mp (h e he)).2⟩,
        fun h e he => (hfield e he).mpr ⟨h.1.2 e he, h.2 e he⟩⟩
    | _ => exact ⟨fun _ => ⟨each_scalar rfl rfl, hroom⟩, fun _ => rfl⟩

end Hunkwise.Json
