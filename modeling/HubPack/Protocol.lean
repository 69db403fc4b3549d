import HubPack.Framing
import HubPack.Message.Reader
import HubPack.Message.Writer

/-!
Buffers of messages. Messages are put at the end of a buffer and taken off its front, each in a
frame of its own; frames of unknown types count for nothing. A frame that is not all there stays
until it is, and so does a frame that is in error.
-/
namespace HubPack

def libraryVersion : String := "0.1.0"

structure Config where
  maxFrameSize : Nat := Framing.defaultMax
  maxNestingDepth : Nat := 64
  deriving DecidableEq, Repr

structure Protocol where
  framing : Framing
  maxNestingDepth : Nat

namespace Protocol

def name : String := "messagepack"

def version : Nat := 1

def transferFormat : String := "Binary"

def ofConfig (c : Config) : Protocol := ⟨.ofMax c.maxFrameSize, c.maxNestingDepth⟩

def describe (p : Protocol) : String :=
  let frames := "FrameCodec \x7b max_frame_size: " ++ toString p.framing.maxPayload ++ " \x7d"
  let protocol := "MessagePackHubProtocol \x7b frames: " ++ frames
    ++ ", max_nesting_depth: " ++ toString p.maxNestingDepth ++ " \x7d"
  "HubCodec \x7b protocol: " ++ protocol ++ ", .. \x7d"

def appendAs (p : Protocol) (headers : List (String × String)) (m : Message) (dst : Bytes) :
    Except WireError Bytes := do
  p.framing.append (← m.payloadAs headers) dst

def append (p : Protocol) (m : Message) (dst : Bytes) : Except WireError Bytes :=
  p.appendAs m.headerEntries m dst

def ofPayload (p : Protocol) (binder : Binder) (payload : Bytes) :
    Except WireError (Option Message) :=
  match readMessage p.maxNestingDepth binder payload with
  | .ok message _ => .ok message
  | .error e _ => .error e.insideFrame

/-- The message in the first frame, and the count of bytes that the frame takes. -/
def first (p : Protocol) (binder : Binder) (src : Bytes) :
    Except WireError (Option Message × Nat) := do
  let span ← p.framing.locate src
  let message ← p.ofPayload binder (span.of src)
  pure (message, span.stop)

theorem first_used {p : Protocol} {binder : Binder} {src : Bytes} {m : Option Message} {used : Nat}
    (h : p.first binder src = .ok (m, used)) : 0 < used ∧ used ≤ src.length := by
  simp only [first, bind, Except.bind, pure, Except.pure] at h
  split at h
  · simp at h
  · rename_i span located
    split at h
    · simp at h
    · simp only [Except.ok.injEq, Prod.mk.injEq] at h
      have := Framing.locate_ok located
      omega

/-- The messages in the whole frames, and the count of bytes that these take. -/
def all (p : Protocol) (binder : Binder) (src : Bytes) : Except WireError (List Message × Nat) :=
  match h : p.first binder src with
  | .ok (message, used) =>
    have := first_used h
    (p.all binder (src.drop used)).map fun (messages, n) => (message.toList ++ messages, used + n)
  | .error (.incompleteFrame _) => .ok ([], 0)
  | .error e => .error e
termination_by src.length
decreasing_by
  simp only [List.length_drop]
  omega

/-- Takes all whole frames off a buffer, or none if one of them is in error. -/
def takeAll (p : Protocol) (binder : Binder) (src : Bytes) :
    Except WireError (List Message × Bytes) :=
  (p.all binder src).map fun (messages, used) => (messages, src.drop used)

/-- Takes the first message off a buffer, and the frames of unknown types before it; `none` if it
is not all there. -/
def takeNext (p : Protocol) (binder : Binder) (src : Bytes) :
    Except WireError (Option Message) × Bytes :=
  match h : p.first binder src with
  | .ok (some message, used) => (.ok (some message), src.drop used)
  | .ok (none, used) =>
    have := first_used h
    p.takeNext binder (src.drop used)
  | .error (.incompleteFrame _) => (.ok none, src)
  | .error e => (.error e, src)
termination_by src.length
decreasing_by
  simp only [List.length_drop]
  omega

end Protocol

end HubPack
