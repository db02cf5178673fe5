import Hunkwise.Proofs.ColumnText
import Hunkwise.Proofs.PrintedAnswers

/-! The listing of a file in the index. There is one entry for the file, or several while a merge is
unresolved, and each is printed on a line of its own. A listing is read from its first line to its
last. What an entry says of the path and the line ends replaces what was said before, a merged entry
replaces mode and object, and an unmerged one leaves a conflict behind that no later line takes
away. -/

namespace Hunkwise.Vcs

namespace Git

def InColumn (t : Text) : Prop := ∀ l ∈ t.letters, l ≠ '\t' ∧ l ≠ '\n'

instance (t : Text) : Decidable (InColumn t) :=
  inferInstanceAs (Decidable (∀ l ∈ t.letters, l ≠ '\t' ∧ l ≠ '\n'))

/-- An entry of the index, with what its listing adds: the ends of its lines in the index and in the
working tree, and the attributes of its path. -/
structure Entry where
  mode : Text
  object : Text
  stage : Nat
  indexEnds : Text
  worktreeEnds : Text
  attributes : Text
  path : Text
  mode_isWord : mode.IsWord := by decide
  object_isWord : object.IsWord := by decide
  indexEnds_solid : indexEnds.Solid := by decide
  worktreeEnds_solid : worktreeEnds.Solid := by decide
  attributes_inColumn : InColumn attributes := by decide
  path_inColumn : InColumn path := by decide

namespace Entry

variable (e : Entry)

def identity : Text := e.mode ++ " " ++ (e.object ++ " " ++ Text.ofInt e.stage)

def ends : Text :=
  "i/" ++ e.indexEnds ++ " " ++ ("w/" ++ e.worktreeEnds ++ " " ++ ("attr/" ++ e.attributes))

def line : Text := Text.intercalate "\t" [e.identity, e.ends, e.path]

end Entry

section Lines

variable {t u : Text} {e : Entry} {es : List Entry}

theorem InColumn.append (ht : InColumn t) (hu : InColumn u) : InColumn (t ++ u) :=
  List.forall_mem_append.mpr ⟨ht, hu⟩

theorem inColumn_of_solid (h : t.Solid) : InColumn t := by
  intro l hl
  constructor <;> (rintro rfl; exact absurd (h _ hl) (by decide))

theorem inColumn_identity (e : Entry) : InColumn e.identity := by
  have hmode := inColumn_of_solid e.mode_isWord.solid
  have hobject := inColumn_of_solid e.object_isWord.solid
  have hstage := inColumn_of_solid (Text.isWord_ofNat e.stage).solid
  apply (hmode.append (by decide)).append
  exact (hobject.append (by decide)).append hstage

theorem inColumn_ends (e : Entry) : InColumn e.ends := by
  have hindex : InColumn ("i/" ++ e.indexEnds) :=
    InColumn.append (by decide) (inColumn_of_solid e.indexEnds_solid)
  have hworktree : InColumn ("w/" ++ e.worktreeEnds) :=
    InColumn.append (by decide) (inColumn_of_solid e.worktreeEnds_solid)
  apply (hindex.append (by decide)).append
  exact (hworktree.append (by decide)).append (InColumn.append (by decide) e.attributes_inColumn)

theorem splitAt_line (e : Entry) : Text.splitAt '\t' e.line = [e.identity, e.ends, e.path] := by
  apply Text.splitAt_intercalate (List.cons_ne_nil _ _)
  have hcolumn {t : Text} (h : InColumn t) : .char '\t' ∉ t.letters := fun hl => (h _ hl).1 rfl
  simp [hcolumn (inColumn_identity e), hcolumn (inColumn_ends e), hcolumn e.path_inColumn]

theorem words_identity (e : Entry) :
    Text.words e.identity = [e.mode, e.object, Text.ofInt e.stage] := by
  rw [Entry.identity, e.mode_isWord.words_append, e.object_isWord.words_append,
    (Text.isWord_ofNat e.stage).words_eq]

/-- The words of the second column: attributes may have blanks, but they come last. -/
theorem words_ends (e : Entry) : ∃ rest : List Text,
    Text.words e.ends = ("i/" ++ e.indexEnds) :: ("w/" ++ e.worktreeEnds) :: rest := by
  have hindex : ("i/" ++ e.indexEnds : Text).IsWord :=
    Text.IsWord.append (by decide) e.indexEnds_solid
  have hworktree : ("w/" ++ e.worktreeEnds : Text).IsWord :=
    Text.IsWord.append (by decide) e.worktreeEnds_solid
  rw [Entry.ends, hindex.words_append, hworktree.words_append]
  exact ⟨_, rfl⟩

theorem newline_not_mem_line (e : Entry) : .char '\n' ∉ e.line.letters := by
  have hcolumn {t : Text} (h : InColumn t) : .char '\n' ∉ t.letters := fun hl => (h _ hl).2 rfl
  have htab : ("\t" : Text).letters = [Letter.char '\t'] := rfl
  simp [Entry.line, Text.intercalate, htab, hcolumn (inColumn_identity e),
    hcolumn (inColumn_ends e), hcolumn e.path_inColumn]

theorem exists_printed {r : Response} (h : r.PrintsLines (es.map Entry.line)) :
    ∃ s, r.Prints s ∧ s.outputLines = es.map Entry.line := by
  apply h.exists_prints
  · exact List.forall_mem_map.mpr fun e _ => newline_not_mem_line e
  · rw [List.mem_map]
    rintro ⟨e, -, hblank⟩
    have hcolumns := congrArg List.length (splitAt_line e)
    rw [hblank] at hcolumns
    cases hcolumns

end Lines

section Reading

variable {s : FileStatus} {es : List Entry}

def listed (s : FileStatus) (e : Entry) : FileStatus where
  tracked := true
  conflicted := s.conflicted || decide (1 < e.stage)
  path := some e.path
  mode := if e.stage ≤ 1 then some e.mode else s.mode
  object := if e.stage ≤ 1 then some e.object else s.object
  indexCrlf := decide (e.indexEnds = "crlf")
  worktreeCrlf := decide (e.worktreeEnds = "crlf")

theorem marked_beq (mark t u : Text) : (some (mark ++ t) == some (mark ++ u)) = decide (t = u) := by
  rw [Bool.eq_iff_iff, beq_iff_eq, decide_eq_true_iff, Option.some.injEq]
  constructor
  · intro h
    exact congrArg Text.mk (List.append_cancel_left (congrArg Text.letters h))
  · rintro rfl
    rfl

theorem readAttributes_identity (s : FileStatus) (e : Entry) :
    readAttributes s e.identity =
      if e.stage < 10 ^ Text.mostDigits then
        .ok (if e.stage ≤ 1 then { s with mode := some e.mode, object := some e.object }
          else { s with conflicted := true })
      else .error .badStage := by
  unfold readAttributes
  rw [words_identity]
  dsimp only
  rw [Text.readInt?_ofNat]
  by_cases hdigits : e.stage < 10 ^ Text.mostDigits
  · rw [if_pos hdigits, if_pos hdigits]
    by_cases hstage : e.stage ≤ 1 <;> simp [hstage]
  · rw [if_neg hdigits, if_neg hdigits]

/-- A line is taken in as its entry, unless its stage has too many digits. -/
theorem readEntry_line (s : FileStatus) (e : Entry) :
    readEntry s e.line =
      if e.stage < 10 ^ Text.mostDigits then .ok (listed s e) else .error .badStage := by
  obtain ⟨rest, hends⟩ := words_ends e
  have hindex : (some ("i/" ++ e.indexEnds) == some (Text.ofString "i/crlf")) =
      decide (e.indexEnds = "crlf") := marked_beq _ _ "crlf"
  have hworktree : (some ("w/" ++ e.worktreeEnds) == some (Text.ofString "w/crlf")) =
      decide (e.worktreeEnds = "crlf") := marked_beq _ _ "crlf"
  unfold readEntry
  rw [splitAt_line]
  dsimp only
  rw [readAttributes_identity, hends]
  by_cases hdigits : e.stage < 10 ^ Text.mostDigits
  · rw [if_pos hdigits, if_pos hdigits]
    by_cases hstage : e.stage ≤ 1
    · simp [listed, hindex, hworktree, hstage]
    · simp [listed, hindex, hworktree, hstage, Nat.lt_of_not_le hstage]
  · rw [if_neg hdigits, if_neg hdigits]

structure Describes (es : List Entry) (s : FileStatus) : Prop where
  tracked : s.tracked = true ↔ es ≠ []
  conflicted : s.conflicted = true ↔ ∃ e ∈ es, 1 < e.stage
  mode : s.mode = (es.filter fun e => e.stage ≤ 1).getLast?.map Entry.mode
  object : s.object = (es.filter fun e => e.stage ≤ 1).getLast?.map Entry.object
  path : s.path = es.getLast?.map Entry.path
  indexCrlf : s.indexCrlf = true ↔ ∃ e, es.getLast? = some e ∧ e.indexEnds = "crlf"
  worktreeCrlf : s.worktreeCrlf = true ↔ ∃ e, es.getLast? = some e ∧ e.worktreeEnds = "crlf"

theorem describes_nil : Describes [] {} := by
  constructor <;> simp

theorem Describes.snoc (h : Describes es s) (e : Entry) : Describes (es ++ [e]) (listed s e) where
  tracked := by simp [listed]
  conflicted := by simp [listed, h.conflicted, or_and_right, exists_or]
  mode := by by_cases hstage : e.stage ≤ 1 <;> simp [listed, h.mode, hstage]
  object := by by_cases hstage : e.stage ≤ 1 <;> simp [listed, h.object, hstage]
  path := by simp [listed]
  indexCrlf := by simp [listed]
  worktreeCrlf := by simp [listed]

/-- A listing without overlong stages is read to its end. -/
theorem describes_readListing (h : ∀ e ∈ es, e.stage < 10 ^ Text.mostDigits) :
    ∃ s, readListing (es.map Entry.line) = .ok s ∧ Describes es s := by
  -- by the last entry: what a line says replaces or adds to what all lines before it said
  induction es using List.reverseRecOn with
  | nil => exact ⟨{}, rfl, describes_nil⟩
  | append_singleton es e ih =>
    obtain ⟨hes, he⟩ := List.forall_mem_append.mp h
    obtain ⟨s, hread, hs⟩ := ih hes
    refine ⟨listed s e, ?_, hs.snoc e⟩
    unfold readListing at hread ⊢
    rw [List.map_append, List.foldlM_append, hread]
    simp only [List.map_cons, List.map_nil, List.foldlM_cons, List.foldlM_nil, readEntry_line,
      if_pos (he e (List.mem_singleton_self e))]
    rfl

end Reading

section Listings

variable {host : Host} {r : Repository} {path relative : Text} {log : List Invocation}
  {es : List Entry}

/-- A file's listing, asked for after some commands, prints its index entries. -/
structure Lists (host : Host) (r : Repository) (path relative : Text) (log : List Invocation)
    (es : List Entry) : Prop where
  backend : r.backend = .git
  located : r.relativize path = .ok relative
  printed : (host log (r.invocation (statusQuery relative) r.root)).PrintsLines
    (es.map Entry.line)

theorem Lists.status_eq (h : Lists host r path relative log es) :
    r.status host path log =
      (readListing (es.map Entry.line), log ++ r.statusQuestions relative) := by
  obtain ⟨s, hs, hlines⟩ := exists_printed h.printed
  rw [← hlines]
  exact Repository.status_listed h.backend h.located hs

/-- Whatever index entries a file has, and in whatever order they are listed, the status of the file is
the one they describe; in an unresolved merge a request ends with it. -/
theorem index_entries_decide_status (host : Host) (es : List Entry) (hne : es ≠ [])
    (hstages : ∀ e ∈ es, e.stage < 10 ^ Text.mostDigits) :
    (∀ (r : Repository) (path relative : Text) (log : List Invocation),
      Lists host r path relative log es → ∃ s,
        r.status host path log = (.ok s, log ++ r.statusQuestions relative) ∧
        s.tracked = true ∧ Describes es s) ∧
    ∀ (a : Attachment) (limits : RequestLimits) (w : Work) (root relative : Text),
      let repo : Repository := { backend := .git, timeout := limits.timeout }
      let found := { repo with root := some (Text.join root.outputLines) }
      let asked := repo.rootQuestion w.buffer.path
      a.config.vcs = "git" → (host w.log asked).Prints root →
      Lists host found w.buffer.path relative (w.log ++ [asked]) es → (∃ e ∈ es, 1 < e.stage) →
        a.formatModifications host limits w =
          (.ok { client := a.client.name, status := .conflicts },
            { w with log := w.log ++ asked :: found.statusQuestions relative }) := by
  obtain ⟨s, hread, hs⟩ := describes_readListing hstages
  have htracked : s.tracked = true := hs.tracked.mpr hne
  constructor
  · intro r path relative log hlists
    refine ⟨s, ?_, htracked, hs⟩
    rw [hlists.status_eq, hread]
  · intro a limits w root relative repo found asked hvcs hroot hlists hconflict
    have hrepo : Repository.ofName a.config.vcs limits.timeout = .ok repo := by
      rw [hvcs]
      rfl
    have hfound := Repository.locate_answered hroot
    have hstatus := hlists.status_eq
    rw [hread] at hstatus
    rw [Attachment.formatModifications_conflicted hrepo hfound hstatus htracked
      (hs.conflicted.mpr hconflict), List.append_assoc]
    rfl

/-- The entries of a file in an unresolved merge; the one of the common ancestor comes last. -/
def unmerged : List Entry := [
  { mode := "100755", object := "b2", stage := 2, indexEnds := "crlf", worktreeEnds := "lf"
    attributes := "text eol=lf", path := "a b" },
  { mode := "100644", object := "c3", stage := 3, indexEnds := "lf", worktreeEnds := "lf"
    attributes := "", path := "a b" },
  { mode := "100644", object := "a1", stage := 1, indexEnds := "lf", worktreeEnds := "crlf"
    attributes := "", path := "a b" }]

def unmergedListing : String :=
  "100755 b2 2\ti/crlf w/lf attr/text eol=lf\ta b\n" ++
  "100644 c3 3\ti/lf w/lf attr/\ta b\n" ++
  "100644 a1 1\ti/lf w/crlf attr/\ta b\n"

def unmergedScript : Script := [
  { words := ["rev-parse"], reply := .writes "/r\n" },
  { words := ["ls-files"], reply := .writes unmergedListing }]

def unmergedWork : Work :=
  { buffer := ⟨"/r/a b", ["<<<<<<< b2", "x", "=======", "y", ">>>>>>> c3"], true⟩ }

/-- The entry of the ancestor gives mode and object, and the conflict stays; no formatter runs. -/
theorem index_entries_decide_status_unmerged :
    let host := unmergedScript.host
    let r : Repository := { backend := .git, root := some "/r" }
    (∃ s, (r.status host "/r/a b" []).1 = .ok s ∧
      s.conflicted = true ∧ s.mode = some "100644" ∧ s.object = some "a1") ∧
    ∃ log, Attachment.toNewFile.formatModifications host { fuel := 1 } unmergedWork =
      (.ok { client := "f", status := .conflicts }, { unmergedWork with log }) := by
  intro host r
  have hstages : ∀ e ∈ unmerged, e.stage < 10 ^ Text.mostDigits := by
    have hsmall : ∀ e ∈ unmerged, e.stage < Text.mostDigits := by decide
    exact fun e he => (hsmall e he).trans (Nat.lt_pow_self (by decide))
  have hprinted (log : List Invocation) (i : Invocation)
      (h : host log i = .exited 0 (Text.encodeChars unmergedListing.toList) []) :
      (host log i).PrintsLines (unmerged.map Entry.line) := by
    refine .inl ⟨_, _, h, ?_⟩
    rw [Text.decodeLossy_encodeChars]
    decide +kernel
  obtain ⟨hstatus, hformat⟩ :=
    index_entries_decide_status host unmerged (by decide) hstages
  constructor
  · obtain ⟨s, hs, -, hdescribes⟩ := hstatus r "/r/a b" "a b" []
      ⟨rfl, by decide +kernel, hprinted _ _ rfl⟩
    exact ⟨s, congrArg Prod.fst hs, hdescribes.conflicted.mpr (by decide), hdescribes.mode,
      hdescribes.object⟩
  · exact ⟨_, hformat Attachment.toNewFile { fuel := 1 } unmergedWork "/r\n" "a b" rfl
      ⟨_, _, rfl, Text.decodeLossy_encodeChars _⟩
      ⟨rfl, by decide +kernel, hprinted _ _ rfl⟩ (by decide)⟩

def overlong : Entry where
  mode := "100644"
  object := "abc"
  stage := 10 ^ Text.mostDigits
  indexEnds := "lf"
  worktreeEnds := "lf"
  attributes := ""
  path := "a"

theorem isEncodable_overlong : (Text.terminated [overlong.line]).isEncodable = true := by
  have hstage : (Text.ofInt overlong.stage).isEncodable = true := Text.isEncodable_ofChars _
  have hidentity : overlong.identity.isEncodable = true := by
    simp only [Entry.identity, Text.isEncodable_append, hstage]
    decide
  have hends : overlong.ends.isEncodable = true := by decide
  have hline : overlong.line =
      overlong.identity ++ ("\t" ++ (overlong.ends ++ ("\t" ++ (overlong.path ++ ⟨[]⟩)))) := rfl
  have hprinted : Text.terminated [overlong.line] = overlong.line ++ ⟨[]⟩ ++ "\n" := rfl
  rw [hprinted, hline]
  simp only [Text.isEncodable_append, hidentity, hends]
  decide

def overlongHost : Host where
  answer _ _ := .exited 0 ((Text.terminated [overlong.line]).encode?.getD []) []

/-- A listing with such an entry gives no status. -/
theorem overlong_stage_is_refused :
    let r : Repository := { backend := .git, root := some "/r" }
    Lists overlongHost r "/r/a" "a" [] [overlong] ∧
      (r.status overlongHost "/r/a" []).1 = .error .badStage := by
  intro r
  have hlists : Lists overlongHost r "/r/a" "a" [] [overlong] := by
    refine ⟨rfl, by decide +kernel, .inl ⟨_, _, rfl, ?_⟩⟩
    obtain ⟨bytes, hbytes⟩ := Text.exists_encode? isEncodable_overlong
    rw [hbytes]
    exact Text.decodeLossy_encode? hbytes
  refine ⟨hlists, ?_⟩
  rw [hlists.status_eq, readListing, List.map_singleton, List.foldlM_cons, readEntry_line, if_neg]
  · rfl
  · exact Nat.lt_irrefl _

end Listings

end Git

end Hunkwise.Vcs
