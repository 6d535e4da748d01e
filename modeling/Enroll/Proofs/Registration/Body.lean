import Enroll.Proofs.Client.Operations
import Enroll.Proofs.Exchange.Apart
import Enroll.Proofs.Json.Printing
import Enroll.Proofs.Json.Reading
import Enroll.Proofs.Text.Utf8

/-!
# The body of a registration

A registration goes through its body untouched: name and key are read back from the bytes that are
sent, unit for unit, whatever they are.
-/

namespace Enroll

namespace Registration

open Json (Lexes Derives Denotes)

theorem body_eq (r : Registration) :
    r.body = 0x7B :: (Json.text (.string "name") ++ 0x3A :: (Json.text (.string r.name) ++
      0x2C :: (Json.text (.string "key") ++ 0x3A :: (Json.text (.string r.key) ++ [0x7D])))) := by
  simp [body, toJson, Json.text_object, Json.membersText_cons, Json.separate]

theorem denotes_body (r : Registration) : Denotes r.body r.toJson := by
  have hLexes := Lexes.token .openObject <| Lexes.token (Json.spells_text_string "name") <|
    Lexes.token .colon <| Lexes.token (Json.spells_text_string r.name) <| Lexes.token .comma <|
    Lexes.token (Json.spells_text_string "key") <| Lexes.token .colon <|
    Lexes.token (Json.spells_text_string r.key) <| Lexes.token .closeObject <|
    Lexes.nil (s := []) fun _ hu => absurd hu List.not_mem_nil
  have hMembers := Derives.members (k := "key") (.member (k := "name") (.string r.name))
    (.string r.key)
  have hArranged : Members.Arranges [("name", .string r.name), ("key", .string r.key)]
      [("name", .string r.name), ("key", .string r.key)] := Members.arranges_setAll _
  refine ⟨_, ?_, .object hMembers hArranged⟩
  rw [body_eq]
  exact hLexes

theorem paired_body (r : Registration) : r.body.Paired := by
  rw [body_eq]
  refine .unit rfl (.append (Json.paired_text_string _) (.unit rfl ?_))
  refine .append (Json.paired_text_string _) (.unit rfl ?_)
  refine .append (Json.paired_text_string _) (.unit rfl ?_)
  exact .append (Json.paired_text_string _) (.unit rfl .nil)

theorem toJson_injective : Function.Injective toJson := by
  intro r r' hEq
  obtain ⟨name, key⟩ := r
  obtain ⟨name', key'⟩ := r'
  simpa [toJson] using hEq

end Registration

namespace Client

open Loop

/-! ## What is sent -/

theorem isEntry_closeRegister [Nesting] (c : Client) (port : Number) (name url : Text)
    (o : Except Failure Outcome) :
    (c.closeRegister port name url o).Shows fun e => e.isEntry := by
  cases o with
  | ok outcome =>
    refine Act.Shows.bind ?_ fun _ => Act.shows_pure _
    cases outcome with
    | accepted => exact Logger.isEntry_write _ _ _ _
    | rejected => exact Logger.isEntry_write _ _ _ _
  | error f =>
    refine Act.Shows.bind ?_ fun _ => Act.shows_fail _
    cases f with
    | transport => exact Logger.isEntry_write _ _ _ _
    | _ => exact Act.shows_pure _

/-- Whatever its logger does, a registration fails at once or is its own exchange. -/
theorem register_cases [Nesting] (c : Client) (port : Number) (r : Registration) :
    ((c.register port r).Shows fun e => e.isEntry) ∧
      ((∃ f, (c.register port r).result = .error f) ∨
        (c.register port r).result = .ok (Call.closing (c.registering port r)
          (c.closeRegister port r.name (c.url port registerPath)))) := by
  have hPort : (checkPort "register" port).Shows fun e => e.isEntry := by
    unfold checkPort
    split
    · exact Act.shows_pure _
    · exact Act.shows_fail _
  have hWrite : ∀ l context message, (c.log.write l context message).Shows fun e => e.isEntry :=
    c.log.isEntry_write
  refine ⟨hPort.bind fun _ => (hWrite _ _ _).bind fun _ => Act.shows_pure _, ?_⟩
  cases hResult : (c.register port r).result with
  | error f => exact .inl ⟨f, rfl⟩
  | ok call =>
    obtain ⟨_, -, hRest⟩ := Act.result_bind_eq_ok.mp hResult
    obtain ⟨_, -, hCall⟩ := Act.result_bind_eq_ok.mp hRest
    exact .inr (congrArg Except.ok (Except.ok.inj hCall).symm)

/-- The requests of a call that is run alone. -/
def sent {α : Type} (opening : Act (Call α)) (now : Nat) (s : Script) : List Event :=
  ((soloAt now opening s).notes.map Note.event).filter fun e => e.effect.isSent

theorem sent_of_closing {α β : Type} {opening : Act (Call α)} {x : Exchange β}
    {close : Except Failure β → Act α} (hOpens : opening.result = .ok (Call.closing x close))
    (hOpening : opening.Apart) (hClose : ∀ o, (close o).Apart) (now : Nat) (s : Script) :
    sent opening now s = [⟨now, .sent x.request false⟩] := by
  have hSeen := x.filter_isSent_seen s now
  rw [sent, filter_soloAt_closing Effect.isExchanged_of_isSent hOpens hOpening hClose,
    List.filter_cons_of_pos rfl, hSeen]

theorem sent_register [Nesting] (c : Client) (port : Number) (r : Registration) (s : Script)
    (now : Nat) :
    (∃ f, (c.register port r).result = .error f) ∧ sent (c.call (.register port r)) now s = [] ∨
      sent (c.call (.register port r)) now s =
        [⟨now, .sent (r.request (c.url port registerPath)) false⟩] := by
  obtain ⟨hEntries, hRegister⟩ := c.register_cases port r
  rcases hRegister with ⟨f, hFails⟩ | hCloses
  · have hCall : c.call (.register port r) = ⟨(c.register port r).effects, .error f⟩ :=
      Act.bind_of_error hFails _
    have hOpening : (c.call (.register port r)).Apart := by
      rw [hCall]
      exact Act.apart_of_isEntry hEntries
    exact .inl ⟨⟨f, hFails⟩, filter_soloAt_of_failed Effect.isExchanged_of_isSent
      (congrArg Act.result hCall) hOpening now s⟩
  · have hCall : c.call (.register port r) = ⟨(c.register port r).effects,
        .ok (Call.closing (c.registering port r) fun o => do
          pure (.outcome (← c.closeRegister port r.name (c.url port registerPath) o)))⟩ := by
      rw [call, Act.bind_of_ok hCloses, Call.mapAct_closing]
      simp [Pure.pure, Act.pure]
    have hOpening : (c.call (.register port r)).Apart := by
      rw [hCall]
      exact Act.apart_of_isEntry hEntries
    refine .inr (sent_of_closing (congrArg Act.result hCall) hOpening (fun o => ?_) now s)
    exact (Act.apart_of_isEntry (isEntry_closeRegister c port r.name _ o)).bind
      fun _ => Act.shows_pure _

/-- What a registration sends carries name and key verbatim: the bytes of its body are read back as
the text they were written from, and that is JSON for the two of them and nothing else. -/
theorem register_carries_name_and_key [Nesting] (c : Client) (port : Number) (r : Registration)
    (s : Script) (now : Nat) :
    let carried := Json.object [("name", .string r.name), ("key", .string r.key)]
    (∀ e ∈ sent (c.call (.register port r)) now s, ∃ q, e = ⟨now, .sent q false⟩ ∧
      Members.get? q.options "body" = some (.string r.body)) ∧
    (c.log.NeverFails → validPort port → (sent (c.call (.register port r)) now s).length = 1) ∧
    r.body.Paired ∧ Utf8.decode (Utf8.encode r.body) = r.body ∧
    (∀ v, Json.Denotes (Utf8.decode (Utf8.encode r.body)) v ↔ v = carried) ∧
    Json.read? (Utf8.decode (Utf8.encode r.body)) = some carried ∧
    ∀ other : Registration, Utf8.encode other.body = Utf8.encode r.body → other = r := by
  intro carried
  have hDecode : ∀ q : Registration, Utf8.decode (Utf8.encode q.body) = q.body := fun q =>
    Utf8.decode_encode q.paired_body
  have hDenotes : Json.Denotes (Utf8.decode (Utf8.encode r.body)) carried := by
    rw [hDecode]
    exact r.denotes_body
  refine ⟨?_, ?_, r.paired_body, hDecode r, ?_, ?_, ?_⟩
  · intro e he
    rcases c.sent_register port r s now with ⟨-, hNone⟩ | hOne
    · rw [hNone] at he
      exact absurd he List.not_mem_nil
    · rw [hOne] at he
      exact ⟨_, List.mem_singleton.mp he, rfl⟩
  · intro hLog hPort
    rcases c.sent_register port r s now with ⟨⟨f, hFails⟩, -⟩ | hOne
    · rw [register_of_valid hLog hPort] at hFails
      exact absurd hFails (by simp)
    · rw [hOne]
      rfl
  · exact fun v => ⟨fun hv => hv.unique hDenotes, fun hv => hv ▸ hDenotes⟩
  · exact Json.read?_eq_some_iff.mpr hDenotes
  · intro other hEq
    have hText : other.body = r.body := by rw [← hDecode other, hEq, hDecode r]
    exact Registration.toJson_injective (other.denotes_body.unique (hText ▸ r.denotes_body))

end Client

end Enroll
