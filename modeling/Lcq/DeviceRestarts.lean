import Lcq.BridgeReplies

/-!
# Whether a restart is noticed

The host asks who is there when a request goes unanswered, and only then. An
answer under another session number poisons the link, and a poisoned link
writes nothing and returns nothing ever after.
-/

namespace DeviceRestarts

open ByteFormat KissFrames BridgeProtocol SpiBus BridgeLink BridgeReplies

/-! ## A greeting names its life -/

/-- What comes in reply to `HELLO` carries the session number of the life it comes from. -/
def Introduced (t : Talk) : Prop :=
  ∀ f, .frame f ∈ t.link.inbox → f.bytes.head? = some (Command.hello ||| reply) →
    ∃ o h, f.origin = some o ∧ Hello.parse f.bytes.tail = some h ∧ h.session = o.session

theorem Introduced.arrives {t : Talk} (introduced : Introduced t) {x : Inbound}
    (own : ∀ f, x = .frame f → f.bytes.head? = some (Command.hello ||| reply) →
      ∃ o h, f.origin = some o ∧ Hello.parse f.bytes.tail = some h ∧ h.session = o.session)
    (rest : List Asked) :
    Introduced { t with pending := rest, link := t.link.arrives x } := by
  intro f mem head
  rcases List.mem_append.mp mem with before | now
  · exact introduced f before head
  · exact own f (List.mem_singleton.mp now).symm head

end DeviceRestarts
