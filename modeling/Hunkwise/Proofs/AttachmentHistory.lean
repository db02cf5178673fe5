import Hunkwise.Proofs.AttachmentLayers
import Mathlib.Order.Lattice.Nat

/-! The attachments of a buffer after any history of attaching and detaching. Formatters run in the
order in which attachments stand, so that order has to be known: a client takes its place when it is
first attached after it was last detached, and its configuration is the one of the last time. Both
are read off the places in the history that still stand for its key. -/

namespace Hunkwise

def Attachment.key (a : Attachment) : Text × Text := (a.buffer, a.client.name)

namespace Registry

/-- What can be done to a registry. An attachment may be refused. -/
inductive Action where
  | attach (buffer : Text) (client : Client) (base provided : Fields)
  | detach (buffer : Text) (client : Option Text)

namespace Action

/-- The attachment that is made, unless it is refused. -/
def given? : Action → Option Attachment
  | attach buffer client base provided =>
    match configure base provided client.formatter with
    | .ok config => some { buffer, client, config }
    | .error _ => none
  | detach _ _ => none

def drops : Action → Text × Text → Bool
  | attach .., _ => false
  | detach buffer client, key => matchesKey buffer client key

def apply (reg : Registry) : Action → Registry
  | attach buffer client base provided =>
    match reg.attach buffer client base provided with
    | .ok (_, reg') => reg'
    | .error _ => reg
  | detach buffer client => (reg.detach buffer client).2

variable {act : Action} {a : Attachment}

theorem drops_of_given (h : act.given? = some a) (key : Text × Text) : act.drops key = false := by
  cases act with
  | attach => rfl
  | detach => cases h

/-- All that an action does: an attachment is put under its key, or entries are dropped. -/
theorem apply_eq (act : Action) (reg : Registry) :
    act.apply reg = match act.given? with
      | some a => Table.set reg a.key a
      | none => reg.filter fun e => !act.drops e.1 := by
  cases act with
  | detach buffer client => rfl
  | attach buffer client base provided =>
    cases hconfig : configure base provided client.formatter with
    | ok config =>
      have hattach : reg.attach buffer client base provided = .ok (⟨buffer, client, config⟩, _) :=
        attach_eq_ok.mpr ⟨config, hconfig, rfl, rfl⟩
      simp [apply, given?, hconfig, hattach, Attachment.key]
    | error f =>
      cases hattach : reg.attach buffer client base provided with
      | ok made =>
        obtain ⟨config, hok, -⟩ := attach_eq_ok.mp hattach
        simp [hconfig] at hok
      | error f => simp [apply, given?, drops, hconfig, hattach]

theorem apply_refused {buffer : Text} {client : Client} {base provided : Fields} {reg : Registry}
    {f : AttachFailure} (h : reg.attach buffer client base provided = .error f) :
    (attach buffer client base provided).apply reg = reg := by
  simp [apply, h]

end Action

section History

def after (h : List Action) : Registry := h.foldl Action.apply []

def givenAt (h : List Action) (i : Nat) : Option Attachment := h[i]?.bind Action.given?

/-- The places in a history at which a key was given an attachment, if it was not dropped since. -/
def standing (h : List Action) (key : Text × Text) : Set Nat :=
  {i | (∃ a, givenAt h i = some a ∧ a.key = key) ∧
    ∀ j act, i < j → h[j]? = some act → act.drops key = false}

/-- The first attachment since the last dropping is earlier under the one key than under the other. -/
def Earlier (h : List Action) (key key' : Text × Text) : Prop :=
  ∃ i j, IsLeast (standing h key) i ∧ IsLeast (standing h key') j ∧ i < j

variable {h : List Action} {act : Action} {a : Attachment} {key key' : Text × Text} {i : Nat}
  {reg : Registry}

theorem after_snoc (h : List Action) (act : Action) : after (h ++ [act]) = act.apply (after h) := by
  simp [after]

theorem lt_of_givenAt (hi : givenAt h i = some a) : i < h.length := by
  simp only [givenAt, Option.bind_eq_some_iff] at hi
  obtain ⟨act, hact, -⟩ := hi
  exact (List.getElem?_eq_some_iff.mp hact).1

theorem lt_of_mem_standing (hi : i ∈ standing h key) : i < h.length := by
  obtain ⟨⟨a, ha, -⟩, -⟩ := hi
  exact lt_of_givenAt ha

theorem givenAt_snoc_of_lt (hi : i < h.length) (act : Action) :
    givenAt (h ++ [act]) i = givenAt h i := by
  simp [givenAt, List.getElem?_append_left hi]

theorem givenAt_snoc_last (h : List Action) (act : Action) :
    givenAt (h ++ [act]) h.length = act.given? := by
  simp [givenAt]

theorem mem_standing_snoc : i ∈ standing (h ++ [act]) key ↔
    act.drops key = false ∧
      (i ∈ standing h key ∨ i = h.length ∧ ∃ a, act.given? = some a ∧ a.key = key) := by
  constructor
  · rintro ⟨⟨a, ha, hkey⟩, hlater⟩
    have hlt := lt_of_givenAt ha
    rw [List.length_append, List.length_singleton] at hlt
    rcases Nat.lt_succ_iff_lt_or_eq.mp hlt with hlt | rfl
    · rw [givenAt_snoc_of_lt hlt] at ha
      refine ⟨hlater h.length act hlt (by simp), .inl ⟨⟨a, ha, hkey⟩, ?_⟩⟩
      intro j act' hj hact'
      apply hlater j act' hj
      rw [List.getElem?_append_left (List.getElem?_eq_some_iff.mp hact').1, hact']
    · rw [givenAt_snoc_last] at ha
      exact ⟨Action.drops_of_given ha key, .inr ⟨rfl, a, ha, hkey⟩⟩
  · rintro ⟨hkeep, hi | ⟨rfl, a, ha, hkey⟩⟩
    · obtain ⟨⟨a, ha, hkey⟩, hlater⟩ := hi
      refine ⟨⟨a, by rw [givenAt_snoc_of_lt (lt_of_givenAt ha), ha], hkey⟩, ?_⟩
      intro j act' hj hact'
      by_cases hlt : j < h.length
      · rw [List.getElem?_append_left hlt] at hact'
        exact hlater j act' hj hact'
      · simp only [List.getElem?_append_right (not_lt.mp hlt), List.getElem?_singleton] at hact'
        split at hact'
        · cases hact'
          exact hkeep
        · cases hact'
    · refine ⟨⟨a, by rw [givenAt_snoc_last, ha], hkey⟩, ?_⟩
      intro j act' hj hact'
      have hlt := (List.getElem?_eq_some_iff.mp hact').1
      simp at hlt
      omega

theorem standing_given (hact : act.given? = some a) (hkey : a.key = key) :
    standing (h ++ [act]) key = insert h.length (standing h key) := by
  ext i
  simp [mem_standing_snoc, Action.drops_of_given hact, hact, hkey, or_comm]

theorem standing_kept (hkeep : act.drops key = false)
    (hact : ∀ a, act.given? = some a → a.key ≠ key) : standing (h ++ [act]) key = standing h key := by
  ext i
  simp only [mem_standing_snoc, hkeep, true_and, or_iff_left_iff_imp]
  rintro ⟨-, a, ha, hkey⟩
  exact absurd hkey (hact a ha)

theorem standing_dropped (hdrop : act.drops key = true) : standing (h ++ [act]) key = ∅ := by
  ext i
  simp [mem_standing_snoc, hdrop]

theorem isLeast_snoc (hi : IsLeast (standing h key) i) (hkeep : act.drops key = false) :
    IsLeast (standing (h ++ [act]) key) i := by
  refine ⟨mem_standing_snoc.mpr ⟨hkeep, .inl hi.1⟩, fun j hj => ?_⟩
  obtain ⟨-, hj | ⟨rfl, -⟩⟩ := mem_standing_snoc.mp hj
  · exact hi.2 hj
  · exact (lt_of_mem_standing hi.1).le

theorem Earlier.snoc (he : Earlier h key key') (hkey : act.drops key = false)
    (hkey' : act.drops key' = false) : Earlier (h ++ [act]) key key' := by
  obtain ⟨i, j, hi, hj, hlt⟩ := he
  exact ⟨i, j, isLeast_snoc hi hkey, isLeast_snoc hj hkey', hlt⟩

/-- What a registry knows of a history: the last attachment under each key that stands, and the keys
by the first one. -/
structure Records (h : List Action) (reg : Registry) : Prop where
  distinct : Table.Distinct reg
  last : ∀ key a, Table.get? reg key = some a →
    a.key = key ∧ ∃ i, IsGreatest (standing h key) i ∧ givenAt h i = some a
  mem_keys : ∀ key, key ∈ Table.keys reg ↔ (standing h key).Nonempty
  order : (Table.keys reg).Pairwise (Earlier h)

theorem records_nil : Records [] [] where
  distinct := Table.distinct_nil
  last := nofun
  mem_keys key := by
    simp only [Table.keys, List.map_nil, List.not_mem_nil, false_iff]
    rintro ⟨i, hi⟩
    exact absurd (lt_of_mem_standing hi) (Nat.not_lt_zero i)
  order := .nil

theorem Records.exists_isLeast (hr : Records h reg) (hkey : key ∈ Table.keys reg) :
    ∃ i, IsLeast (standing h key) i :=
  have hne := (hr.mem_keys key).mp hkey
  ⟨_, Nat.sInf_mem hne, fun _ hj => Nat.sInf_le hj⟩

/-- An attachment stands at the place of its key, or at the end if the key is new. -/
theorem Records.set (hr : Records h reg) (hact : act.given? = some a) :
    Records (h ++ [act]) (Table.set reg a.key a) where
  distinct := hr.distinct.set _ _
  last key b hb := by
    by_cases hkey : key = a.key
    · subst hkey
      rw [Table.get?_set_self] at hb
      cases hb
      refine ⟨rfl, h.length, ?_, by rw [givenAt_snoc_last, hact]⟩
      rw [standing_given hact rfl]
      refine ⟨Set.mem_insert _ _, fun j hj => ?_⟩
      rcases hj with rfl | hj
      · exact le_rfl
      · exact (lt_of_mem_standing hj).le
    · rw [Table.get?_set_of_ne hkey] at hb
      obtain ⟨hown, i, hi, hgiven⟩ := hr.last key b hb
      refine ⟨hown, i, ?_, by rw [givenAt_snoc_of_lt (lt_of_givenAt hgiven), hgiven]⟩
      rwa [standing_kept (Action.drops_of_given hact key) (by simp [hact, Ne.symm hkey])]
  mem_keys key := by
    by_cases hkey : a.key = key
    · subst hkey
      rw [standing_given hact rfl, Table.keys_set]
      simp only [Set.insert_nonempty, iff_true]
      split
      · assumption
      · simp
    · rw [standing_kept (Action.drops_of_given hact key) (by simp [hact, hkey]), ← hr.mem_keys,
        Table.keys_set]
      split
      · rfl
      · simp [Ne.symm hkey]
  order := by
    have hkeep := Action.drops_of_given hact
    have hold : (Table.keys reg).Pairwise (Earlier (h ++ [act])) :=
      hr.order.imp fun he => he.snoc (hkeep _) (hkeep _)
    rw [Table.keys_set]
    split
    · exact hold
    · next hnew =>
      refine List.pairwise_append.mpr ⟨hold, List.pairwise_singleton _ _, fun key hkey key' hkey' => ?_⟩
      rw [List.mem_singleton] at hkey'
      subst hkey'
      obtain ⟨i, hi⟩ := hr.exists_isLeast hkey
      have hempty : standing h a.key = ∅ :=
        Set.not_nonempty_iff_eq_empty.mp fun hne => hnew ((hr.mem_keys _).mpr hne)
      refine ⟨i, h.length, isLeast_snoc hi (hkeep _), ?_, lt_of_mem_standing hi.1⟩
      rw [standing_given hact rfl, hempty]
      simp

theorem Records.drop (hr : Records h reg) (hact : act.given? = none) :
    Records (h ++ [act]) (reg.filter fun e => !act.drops e.1) where
  distinct := hr.distinct.filter fun key => !act.drops key
  last key b hb := by
    obtain ⟨hkeep, hget⟩ := (Table.get?_filter_eq_some (p := fun key => !act.drops key)
      hr.distinct).mp hb
    rw [Bool.not_eq_true'] at hkeep
    obtain ⟨hown, i, hi, hgiven⟩ := hr.last key b hget
    refine ⟨hown, i, ?_, by rw [givenAt_snoc_of_lt (lt_of_givenAt hgiven), hgiven]⟩
    rwa [standing_kept hkeep (by simp [hact])]
  mem_keys key := by
    rw [Table.keys_filter fun key => !act.drops key]
    cases hdrop : act.drops key with
    | true => simp [standing_dropped hdrop, hdrop]
    | false => simp [standing_kept hdrop, hact, hdrop, hr.mem_keys]
  order := by
    rw [Table.keys_filter fun key => !act.drops key]
    refine (hr.order.sublist List.filter_sublist).imp_of_mem fun hkey hkey' he => he.snoc ?_ ?_
    · simpa using (List.mem_filter.mp hkey).2
    · simpa using (List.mem_filter.mp hkey').2

theorem Records.apply (hr : Records h reg) (act : Action) : Records (h ++ [act]) (act.apply reg) := by
  rw [Action.apply_eq]
  cases hact : act.given? with
  | some a => exact hr.set hact
  | none => exact hr.drop hact

theorem records_after (h : List Action) : Records h (after h) := by
  induction h using List.reverseRecOn with
  | nil => exact records_nil
  | append_singleton h act ih =>
    rw [after_snoc]
    exact ih.apply act

theorem Records.map_key (hr : Records h reg) (buffer : Text) :
    (reg.forBuffer buffer).map Attachment.key = (Table.keys reg).filter fun key => key.1 = buffer := by
  rw [← Table.keys_filter fun key : Text × Text => decide (key.1 = buffer)]
  simp only [forBuffer, Table.keys, List.map_map]
  apply List.map_congr_left
  intro e he
  exact (hr.last e.1 e.2 (Table.get?_of_mem hr.distinct (List.mem_filter.mp he).1)).1

theorem Records.mem_forBuffer (hr : Records h reg) {buffer : Text} (ha : a ∈ reg.forBuffer buffer) :
    a.buffer = buffer ∧ ∃ i, IsGreatest (standing h a.key) i ∧ givenAt h i = some a := by
  obtain ⟨e, he, rfl⟩ := List.mem_map.mp ha
  obtain ⟨hmem, hbuffer⟩ := List.mem_filter.mp he
  obtain ⟨hown, hlast⟩ := hr.last e.1 e.2 (Table.get?_of_mem hr.distinct hmem)
  rw [hown]
  exact ⟨(congrArg Prod.fst hown).trans (of_decide_eq_true hbuffer), hlast⟩

theorem Records.mem_names (hr : Records h reg) (buffer name : Text) :
    name ∈ (reg.forBuffer buffer).map (fun a => a.client.name) ↔
      (standing h (buffer, name)).Nonempty := by
  have hkeys : (buffer, name) ∈ (reg.forBuffer buffer).map Attachment.key ↔
      (standing h (buffer, name)).Nonempty := by
    rw [hr.map_key, List.mem_filter, hr.mem_keys]
    simp
  rw [← hkeys, List.mem_map, List.mem_map]
  refine exists_congr fun a => and_congr_right fun ha => ?_
  simp [Attachment.key, (hr.mem_forBuffer ha).1]

theorem Records.nodup_names (hr : Records h reg) (buffer : Text) :
    ((reg.forBuffer buffer).map fun a => a.client.name).Nodup := by
  have hkeys : ((reg.forBuffer buffer).map Attachment.key).Nodup := by
    rw [hr.map_key]
    exact List.Nodup.filter _ hr.distinct
  refine List.Nodup.map_on (fun a ha a' ha' hname => ?_) hkeys.of_map
  refine List.inj_on_of_nodup_map hkeys ha ha' ?_
  rw [Attachment.key, Attachment.key, (hr.mem_forBuffer ha).1, (hr.mem_forBuffer ha').1, hname]

theorem Records.pairwise_forBuffer (hr : Records h reg) (buffer : Text) :
    (reg.forBuffer buffer).Pairwise fun a a' => Earlier h a.key a'.key := by
  rw [← List.pairwise_map (f := Attachment.key) (R := Earlier h), hr.map_key]
  exact hr.order.sublist List.filter_sublist

end History

section Detaching

variable {reg : Registry} {buffer : Text} {client : Option Text} {key : Text × Text}

theorem fst_of_matchesKey (h : matchesKey buffer client key = true) : key.1 = buffer := by
  simp only [matchesKey, Bool.and_eq_true, decide_eq_true_eq] at h
  exact h.1

theorem detach_counts (reg : Registry) (buffer : Text) (client : Option Text) :
    (reg.detach buffer client).1 + ((reg.detach buffer client).2.forBuffer buffer).length =
      (reg.forBuffer buffer).length := by
  simp only [detach, forBuffer, List.length_map, ← List.countP_eq_length_filter]
  rw [List.countP_eq_countP_filter_add reg (fun e => decide (e.1.1 = buffer))
    fun e => matchesKey buffer client e.1]
  congr 1
  rw [List.countP_filter]
  refine List.countP_congr fun e _ => ?_
  simp only [Bool.and_eq_true, decide_eq_true_eq, iff_and_self]
  exact fst_of_matchesKey

theorem detach_others {other : Text} (hne : other ≠ buffer) (reg : Registry) (client : Option Text) :
    (reg.detach buffer client).2.forBuffer other = reg.forBuffer other := by
  simp only [detach, forBuffer, List.filter_filter]
  congr 1
  refine List.filter_congr fun e _ => ?_
  cases hmatch : matchesKey buffer client e.1 with
  | false => simp
  | true =>
    have hbuffer := fst_of_matchesKey hmatch
    simp [hbuffer, Ne.symm hne]

/-- Detaching takes the client that it names from the buffer, or all clients if it names none. -/
theorem Records.forBuffer_detach {h : List Action} (hr : Records h reg) (buffer : Text)
    (client : Option Text) :
    (reg.detach buffer client).2.forBuffer buffer =
      (reg.forBuffer buffer).filter fun a => client.any (· ≠ a.client.name) := by
  simp only [detach, forBuffer, List.filter_filter, List.filter_map]
  congr 1
  refine List.filter_congr fun e he => ?_
  obtain ⟨hown, -⟩ := hr.last e.1 e.2 (Table.get?_of_mem hr.distinct he)
  have hname : e.1.2 = e.2.client.name := (congrArg Prod.snd hown).symm
  by_cases hbuffer : e.1.1 = buffer
  · cases client <;> simp [matchesKey, hbuffer, hname]
  · simp [hbuffer]

end Detaching

/-- After any history the attachments of a buffer are those of the clients attached to it and not
detached since, each once, by their first attaching since then and as given by the last one. -/
theorem attachments_follow_history (h : List Action) (buffer : Text) :
    let reg := after h
    let attached := reg.forBuffer buffer
    (attached.map fun a => a.client.name).Nodup ∧
    (∀ name, name ∈ attached.map (fun a => a.client.name) ↔ (standing h (buffer, name)).Nonempty) ∧
    (∀ a ∈ attached, a.buffer = buffer ∧
      ∃ i, IsGreatest (standing h a.key) i ∧ givenAt h i = some a) ∧
    (attached.Pairwise fun a a' => Earlier h a.key a'.key) ∧
    (∀ id client base provided f, reg.attach id client base provided = .error f →
      after (h ++ [.attach id client base provided]) = reg) ∧
    ∀ client,
      let (count, reg') := reg.detach buffer client
      after (h ++ [.detach buffer client]) = reg' ∧
      reg'.forBuffer buffer = attached.filter (fun a => client.any (· ≠ a.client.name)) ∧
      count + (reg'.forBuffer buffer).length = attached.length ∧
      ∀ other, other ≠ buffer → reg'.forBuffer other = reg.forBuffer other := by
  intro reg attached
  have hr : Records h reg := records_after h
  refine ⟨hr.nodup_names buffer, hr.mem_names buffer, fun a ha => hr.mem_forBuffer ha,
    hr.pairwise_forBuffer buffer, ?_, fun client => ?_⟩
  · intro id client base provided f hf
    rw [after_snoc]
    exact Action.apply_refused hf
  · exact ⟨after_snoc h _, hr.forBuffer_detach buffer client, detach_counts reg buffer client,
      fun other hne => detach_others hne reg client⟩

def namedClient (name : Text) : Client :=
  { formatter := { name, command := [name], rangeArgs := some [] } }

def someHistory : List Action := [
  .attach "1" (namedClient "f") [] [],
  .attach "1" (namedClient "g") [] [],
  .attach "2" (namedClient "f") [] [],
  .detach "1" (some "f"),
  .attach "1" (namedClient "f") [] [("format_on_save", .bool true)]]

/-- A backend that is not supported is refused, and the client keeps the configuration it had. -/
theorem attachments_follow_history_turns :
    ((after someHistory).forBuffer "1").map (fun a => (a.client.name, a.config.onSave)) =
      [(("g" : Text), false), (("f" : Text), true)] ∧
    ∃ f, (after someHistory).attach "1" (namedClient "g") [] [("vcs", .str "svn")] = .error f ∧
      after (someHistory ++ [.attach "1" (namedClient "g") [] [("vcs", .str "svn")]]) =
        after someHistory := by
  have hrefused : (after someHistory).attach "1" (namedClient "g") [] [("vcs", .str "svn")] =
    .error (.refused (Vcs.unsupportedMessage "svn")) := rfl
  exact ⟨rfl, _, hrefused,
    (attachments_follow_history someHistory "1").2.2.2.2.1 _ _ _ _ _ hrefused⟩

end Registry

end Hunkwise
