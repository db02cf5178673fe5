import Hunkwise.Proofs.PrintedAnswers
import Mathlib.Data.List.TakeWhile

/-! The listings of a file in the working copy: the merges it takes part in, and how it has changed.
Each entry is printed on a line of its own, a mark and a space before the name of the file, and
remarks may stand between the entries. Remarks are passed over and a name is taken as it stands, so
neither is read as the other, whatever letters a name is made of. -/

namespace Hunkwise.Vcs.Mercurial

section Lines

/-- Empty, or with a number sign after nothing but spaces. -/
def Skipped (l : Text) : Prop :=
  l.letters = [] ∨
    ∃ n rest, l.letters = List.replicate n (Letter.char ' ') ++ Letter.char '#' :: rest

theorem isComment_iff (l : Text) : isComment l = true ↔ Skipped l := by
  rw [isComment, Bool.or_eq_true, Text.isEmpty, List.isEmpty_iff, beq_iff_eq]
  apply or_congr_right
  constructor
  · intro h
    obtain ⟨rest, hrest⟩ := List.head?_eq_some_iff.mp h
    refine ⟨(l.letters.takeWhile (· = .char ' ')).length, rest, ?_⟩
    rw [← hrest, ← List.eq_replicate_length.mpr, List.takeWhile_append_dropWhile]
    intro b hb
    simpa using List.mem_takeWhile_imp hb
  · rintro ⟨n, rest, h⟩
    rw [h, List.dropWhile_append_of_pos (by simp)]
    rfl

instance (l : Text) : Decidable (Skipped l) := decidable_of_iff _ (isComment_iff l)

structure Remark where
  text : Text
  skipped : Skipped text := by decide
  unbroken : .char '\n' ∉ text.letters := by decide

structure FileName where
  text : Text
  unbroken : .char '\n' ∉ text.letters := by decide

def entry (mark : Char) (name : FileName) : Text := Text.ofChars [mark, ' '] ++ name.text

variable {mark : Char} (name : FileName)

theorem afterMark_entry : afterMark (entry mark name) = name.text := rfl

theorem head?_entry : (entry mark name).letters.head? = some (.char mark) := rfl

theorem isComment_entry (h : mark ≠ '#' ∧ mark ≠ ' ') : isComment (entry mark name) = false := by
  simp [isComment, entry, Text.ofChars, Text.isEmpty, h]

theorem newline_not_mem_entry (h : mark ≠ '\n') : .char '\n' ∉ (entry mark name).letters := by
  simp [entry, Text.ofChars, Ne.symm h, name.unbroken]

theorem isComment_remark (r : Remark) : isComment r.text = true := (isComment_iff _).mpr r.skipped

end Lines

section Merges

inductive Merge
  | unresolved (name : FileName)
  | resolved (name : FileName)
  | remark (r : Remark)

namespace Merge

def line : Merge → Text
  | unresolved name => entry 'U' name
  | resolved name => entry 'R' name
  | remark r => r.text

/-- The name that is listed as unresolved. -/
def pending? : Merge → Option Text
  | unresolved name => some name.text
  | resolved _ => none
  | remark _ => none

theorem newline_not_mem_line (m : Merge) : .char '\n' ∉ m.line.letters := by
  cases m with
  | unresolved name => exact newline_not_mem_entry name (by decide)
  | resolved name => exact newline_not_mem_entry name (by decide)
  | remark r => exact r.unbroken

theorem mem_pending_iff {ms : List Merge} {name : FileName} :
    name.text ∈ ms.filterMap pending? ↔ unresolved name ∈ ms := by
  rw [List.mem_filterMap]
  constructor
  · rintro ⟨m, hm, hname⟩
    cases m with
    | unresolved other =>
      cases other
      cases hname
      exact hm
    | resolved other => cases hname
    | remark r => cases hname
  · intro h
    exact ⟨_, h, rfl⟩

end Merge

theorem readConflicts_lines (ms : List Merge) :
    readConflicts (ms.map Merge.line) = ms.filterMap Merge.pending? := by
  simp only [readConflicts, List.filter_filter]
  induction ms with
  | nil => rfl
  | cons m ms ih =>
    cases m with
    | unresolved name =>
      simp [Merge.line, Merge.pending?, isComment_entry, head?_entry, afterMark_entry, ih]
    | resolved name =>
      simp [Merge.line, Merge.pending?, List.filterMap_cons, head?_entry, ih]
    | remark r => simp [Merge.line, Merge.pending?, List.filterMap_cons, isComment_remark, ih]

end Merges

section Changes

inductive Mark
  | modified
  | added
  | clean
  | unknown
  deriving DecidableEq

def Mark.letter : Mark → Char
  | modified => 'M'
  | added => 'A'
  | clean => 'C'
  | unknown => '?'

/-- The status that an entry of the list of changes gives. -/
structure Tells (mark : Mark) (name : FileName) (merges : List Merge) (s : FileStatus) : Prop where
  path : s.path = some name.text
  object : s.object = some name.text
  tracked : s.tracked = true ↔ mark ≠ .added ∧ mark ≠ .unknown
  conflicted : s.conflicted = true ↔ .unresolved name ∈ merges

variable {lines rest : List Text} {before : List Remark} {mark : Mark} {name : FileName}
  {merges : List Merge}

theorem Mark.isComment_entry (mark : Mark) (name : FileName) :
    isComment (entry mark.letter name) = false := by
  apply Mercurial.isComment_entry
  cases mark <;> decide

theorem unbroken_changes (hrest : Text.Unbroken rest) :
    Text.Unbroken (before.map Remark.text ++ entry mark.letter name :: rest) := by
  intro l hl
  rcases List.mem_append.mp hl with hl | hl
  · obtain ⟨r, -, rfl⟩ := List.mem_map.mp hl
    exact r.unbroken
  · rcases List.mem_cons.mp hl with rfl | hl
    · apply newline_not_mem_entry
      cases mark <;> decide
    · exact hrest l hl

/-- The first line that is no remark counts, whatever follows it. -/
theorem tells_readStatus
    (h : lines.filter (fun l => !isComment l) =
      (before.map Remark.text ++ entry mark.letter name :: rest).filter fun l => !isComment l) :
    Tells mark name merges (readStatus (merges.filterMap Merge.pending?) lines) := by
  have hfirst : lines.find? (fun l => !isComment l) = some (entry mark.letter name) := by
    have hbefore : (before.map Remark.text).filter (fun l => !isComment l) = [] := by
      rw [List.filter_eq_nil_iff, List.forall_mem_map]
      intro r _
      simp [isComment_remark]
    rw [← List.head?_filter, h, List.filter_append, hbefore, List.nil_append,
      List.filter_cons_of_pos (by simp [mark.isComment_entry]), List.head?_cons]
  rw [readStatus, hfirst]
  refine ⟨rfl, rfl, ?_, ?_⟩
  · cases mark <;> simp [head?_entry, Mark.letter]
  · rw [← Merge.mem_pending_iff]
    simp [afterMark_entry]

/-- With remarks anywhere in both listings, the first entry of the list of changes tells whether the
file is tracked, and the file has conflicts exactly if that very name is listed as unresolved. -/
theorem working_copy_lists_decide_status (host : Host) (r : Repository) (path relative : Text)
    (log : List Invocation) (merges : List Merge) (before : List Remark) (mark : Mark)
    (name : FileName) (rest : List Text) (hbackend : r.backend = .mercurial)
    (hr : r.relativize path = .ok relative) (hrest : Text.Unbroken rest)
    (hmerges : (host log (r.invocation (conflictsQuery relative) r.root)).PrintsLines
      (merges.map Merge.line))
    (hchanges : (host (log ++ [r.invocation (conflictsQuery relative) r.root])
      (r.invocation (statusQuery relative) r.root)).PrintsLines
        (before.map Remark.text ++ entry mark.letter name :: rest)) :
    ∃ s, r.status host path log = (.ok s, log ++ r.statusQuestions relative) ∧
      Tells mark name merges s := by
  have hmergeLines : Text.Unbroken (merges.map Merge.line) :=
    List.forall_mem_map.mpr fun m _ => m.newline_not_mem_line
  obtain ⟨mergeText, hmergeText, hmergesRead⟩ := 
    hmerges.exists_filter (p := fun l => !isComment l) hmergeLines rfl
  obtain ⟨changeText, hchangeText, hchangesRead⟩ := 
    hchanges.exists_filter (p := fun l => !isComment l) (unbroken_changes hrest) rfl
  refine ⟨_, Repository.status_compared hbackend hr hmergeText hchangeText, ?_⟩
  have hconflicts : readConflicts mergeText.outputLines = merges.filterMap Merge.pending? := by
    rw [← readConflicts_lines]
    unfold readConflicts
    rw [hmergesRead]
  rw [hconflicts]
  exact tells_readStatus hchangesRead

def unfinishedScript : Script := [
  { words := ["resolve"], reply := .writes "# unfinished\nR U x\n\nU U #x y\n" },
  { words := ["status"], reply := .writes "\n  # note\nM U #x y\nA z\n" }]

/-- A name with a mark, a number sign and spaces in it is found among the merges. -/
theorem working_copy_lists_decide_status_unfinished :
    let r : Repository := { backend := .mercurial, root := some "/r" }
    ∃ s, (r.status unfinishedScript.host "/r/U #x y" []).1 = .ok s ∧ s.path = some "U #x y" ∧
      s.tracked = true ∧ s.conflicted = true := by
  intro r
  let name : FileName := { text := "U #x y" }
  obtain ⟨s, hs, htells⟩ := working_copy_lists_decide_status unfinishedScript.host r "/r/U #x y"
    "U #x y" [] [.remark { text := "# unfinished" }, .resolved { text := "U x" },
      .remark { text := "" }, .unresolved name] [{ text := "" }, { text := "  # note" }] .modified
    name ["A z"] rfl (by decide +kernel) (by decide)
    (.inl ⟨_, _, rfl, (Text.decodeLossy_encodeChars _).trans (by decide +kernel)⟩)
    (.inl ⟨_, _, rfl, (Text.decodeLossy_encodeChars _).trans (by decide +kernel)⟩)
  exact ⟨s, congrArg Prod.fst hs, htells.path, htells.tracked.mpr (by decide),
    htells.conflicted.mpr (by simp)⟩

end Changes

end Hunkwise.Vcs.Mercurial
