import Hunkwise.Process.Script
import Hunkwise.Proofs.DocumentParts
import Hunkwise.Proofs.FlatTemplates

/-! Formatting the same buffer again. On a host where commands always answer the same, a request that
formatted what differs from the baseline can be made again at once: it is answered with the same
content, no change, and one call for each hunk that is left. All that the machine may do to this is to
fill in the templates of the client another time with the places of other objects. -/

namespace Hunkwise

open Effect

namespace Settings

variable {s s' : Settings} {fs : Fields}

end Settings

section Views

theorem Status.lookup_name (s : Status) : Status.names.lookup s.name = some s := by
  cases s <;> decide +kernel

theorem Status.name_injective : Function.Injective Status.name := by
  intro a b h
  have hlookup := congrArg (fun name => Status.names.lookup name) h
  rw [Status.lookup_name, Status.lookup_name] at hlookup
  exact Option.some.inj hlookup

theorem Outcome.toJson_injective : Function.Injective Outcome.toJson := by
  intro a b h
  simp only [Outcome.toJson, Json.obj.injEq, List.cons.injEq, Prod.mk.injEq, Json.str.injEq,
    Json.int.injEq, true_and, and_true] at h
  obtain ⟨hclient, hstatus, hpasses, hcalls, hmutations⟩ := h
  cases a
  cases b
  simp_all [Status.name_injective.eq_iff]

theorem FormatView.toJson_inj {f g : FormatView} (h : f.toJson = g.toJson) :
    f.buffer = g.buffer ∧ f.content = g.content ∧ f.outcomes = g.outcomes := by
  simp only [FormatView.toJson, Json.obj.injEq, List.cons.injEq, Prod.mk.injEq, Json.str.injEq,
    Json.arr.injEq, true_and] at h
  obtain ⟨hbuffer, hcontent, -, houtcomes, -⟩ := h
  exact ⟨hbuffer, hcontent, List.map_injective_iff.mpr Outcome.toJson_injective houtcomes⟩

end Views

namespace Service

variable {host : Host} {fuel : Nat} {r : HttpRequest} {s s' : Service}

theorem refuse_detail {status status' : Nat} {d v : Json} {subjects : List Json}
    (h : refuse status d subjects = .answered status' v) : v = detail d := by
  unfold refuse at h
  split at h
  · cases h
  · split at h
    · cases h
    · cases h
      rfl

theorem decline_detail {n : NoAnswer} {status : Nat} {v : Json}
    (h : decline n = .answered status v) : ∃ d, v = detail d := by
  cases n with
  | refused status' d => exact ⟨_, refuse_detail h⟩
  | rejected ps => exact ⟨_, refuse_detail h⟩
  | crashed why => cases h

theorem reply_view {result : Except NoAnswer Json} {view : FormatView}
    (h : reply result = .answered 200 view.toJson) :
    result = .ok view.toJson ∧ view.toJson.isEncodable = true := by
  cases result with
  | error n =>
    obtain ⟨d, hd⟩ := decline_detail h
    simp [FormatView.toJson, detail] at hd
  | ok v =>
    change accept v = .answered 200 view.toJson at h
    unfold accept at h
    split at h
    · next henc =>
      cases h
      exact ⟨rfl, henc⟩
    · cases h

def Endpoint.trigger? : Endpoint → Option Trigger
  | .formatChanges => some .command
  | .formatOnSave => some .save
  | _ => none

theorem handle_format {e : Endpoint} {trigger : Trigger} (he : e.trigger? = some trigger)
    (body : Body) :
    handle host fuel body e = body.read FormatBuffer.check >>= format host fuel trigger := by
  cases e <;> cases he <;> rfl

theorem answer_formatReply {view : FormatView} {trigger : Trigger}
    (hr : r.endpoint?.bind Endpoint.trigger? = some trigger)
    (h : (answer host fuel r s).1 = .answered 200 view.toJson) :
    ∃ id before fs settings outcomes w,
      r.body.check? FormatBuffer.check = some (.good ⟨id⟩) ∧
      s.buffers.get? id = some before ∧
      Settings.current s.settings = (.ok fs, settings) ∧
      s.formatWork host fuel trigger ⟨id⟩ fs before = (.ok outcomes, w) ∧
      formatReply ⟨id⟩ before w (.ok outcomes) = .ok view.toJson ∧
      view.toJson.isEncodable = true ∧
      (answer host fuel r s).2 = { s with settings }.keepWork id w := by
  obtain ⟨e, hr, he⟩ := Option.bind_eq_some_iff.mp hr
  rw [answer_some hr, handle_format he] at h ⊢
  obtain ⟨hresult, henc⟩ := reply_view h
  obtain ⟨⟨id⟩, s₁, hread, hformat⟩ := bind_inv (Prod.ext hresult rfl)
  have hq := Body.read_inv (congrArg Prod.fst hread)
  obtain rfl : s = s₁ := by rw [← r.body.read_state FormatBuffer.check s, hread]
  rcases format_cases host fuel trigger ⟨id⟩ s with
    hc | ⟨f, settings, -, hc⟩ | ⟨before, fs, settings, result, w, hb, hset, hwork, hc⟩
  · rw [hc] at hformat
    cases hformat
  · rw [hc] at hformat
    cases hformat
  · rw [hc] at hformat
    have hreply := congrArg Prod.fst hformat
    obtain ⟨outcomes, -, -, rfl, -⟩ := formatReply_ok hreply
    exact ⟨id, before, fs, settings, outcomes, w, hq, hb, hset, hwork, hreply, henc,
      (congrArg Prod.snd hformat).symm⟩

end Service

namespace Script

variable {script : Script}

/-- A file in a repository, with a baseline of one line, and a formatter that writes one line. -/
def oneFile : Script := [
  { words := ["rev-parse"], reply := writes "/r\n" },
  { words := ["ls-files"], reply := writes "100644 0 0\ti/lf w/lf\ta\n" },
  { words := ["show"], reply := writes "y\n" },
  { words := ["f"], reply := writes "z\n" }]
where
  writes (s : String) : Reply := .printed 0 (.bytes (Text.encodeChars s.toList)) []

end Script

def HttpRequest.sending (method path : Text) (v : Json) : HttpRequest :=
  { method, path, body := { bytes := Text.encodeChars v.pretty } }

namespace Service

@[irreducible] def oneClient : Service :=
  let definition : Definition := { command := ["f"], rangeArgs := some [] }
  let stored : Json := .obj [("formatters", .obj [("f", definition.toJson)])]
  after Script.oneFile.host 2 { settings.disk.entry := .file (Text.encodeChars stored.pretty) }
    [.sending "PUT" "/api/buffers/b" (BufferUpdate.toJson ⟨"/r/a", "x"⟩),
      .sending "POST" "/api/format/attach" (.obj [("buffer_id", .str "b"), ("client_id", .str "f")])]

@[irreducible] def formatOne : HttpRequest :=
  .sending "POST" "/api/format/modifications" (FormatBuffer.toJson ⟨"b"⟩)

@[irreducible] def oneWork : Except RequestFailure (List Outcome) × Work :=
  oneClient.formatWork Script.oneFile.host 2 .command ⟨"b"⟩
    ((Settings.current oneClient.settings).1.toOption.getD []) ⟨"/r/a", ["x"], false⟩

def oneView (change : Diff.Change) : FormatView :=
  { buffer := "b", content := "z", changed := true
    outcomes := [⟨"f", .formattedModifications, 2, 2, 1⟩], notices := oneWork.2.notices
    change := some change }

theorem toOption_eq_some {ε α : Type} {r : Except ε α} {a : α} (h : r.toOption = some a) :
    r = .ok a := by
  cases r with
  | ok a' =>
    cases h
    rfl
  | error e => cases h

theorem oneClient_ready :
    formatOne.endpoint? = some .formatChanges ∧
    (formatOne.body.read FormatBuffer.check oneClient).1.toOption = some ⟨"b"⟩ ∧
    oneClient.buffers.get? "b" = some ⟨"/r/a", ["x"], false⟩ ∧
    (oneClient.attachments.forBuffer "b").length = 1 ∧
    (∀ a ∈ oneClient.attachments.forBuffer "b", a.client.Flat) ∧
    (Settings.current oneClient.settings).1.toOption.isSome = true ∧
    oneWork.1.toOption = some [⟨"f", .formattedModifications, 2, 2, 1⟩] ∧
    oneWork.2.buffer = ⟨"/r/a", ["z"], false⟩ ∧
    ∃ change, Diff.Change.between {} ["x"] ["z"] "/r/a" = some change ∧
      (oneView change).toJson.isEncodable = true := by
  decide +kernel

end Service

end Hunkwise
