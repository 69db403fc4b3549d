import HubPack.Protocol
import HubPack.Registry

namespace HubPack

structure Session where
  protocol : Protocol
  registry : Registry := ∅
  buffer : Bytes := []

namespace Session

def binder (s : Session) : Binder := s.registry.binder.forward

def feed (s : Session) (bs : Bytes) : Session := { s with buffer := s.buffer ++ bs }

def sendAs (s : Session) (headers : List (String × String)) (m : Message) :
    Except WireError Session := do
  let buffer ← s.protocol.appendAs headers m s.buffer
  pure { s with buffer }

def send (s : Session) (m : Message) : Except WireError Session := s.sendAs m.headerEntries m

def receive (s : Session) : Except WireError (Option Message) × Session :=
  let (message, buffer) := s.protocol.takeNext s.registry.binder s.buffer
  (message, { s with buffer })

def receiveAll (s : Session) : Except WireError (List Message × Session) := do
  let (messages, buffer) ← s.protocol.takeAll s.registry.binder s.buffer
  pure (messages, { s with buffer })

end Session

end HubPack
