import HubPack.Proofs.Reading.Orderly

namespace HubPack

inductive Operation where
  | peekMarker
  | peekNil
  | marker
  | nil
  | bool
  | int
  | string
  | stringOrNil
  | bytes
  | arrayHeader
  | mapHeader
  | value
  | skip
  | messageType
  deriving DecidableEq, Repr

namespace Operation

abbrev Answer : Operation → Type
  | .peekMarker | .marker => Marker
  | .peekNil | .bool => Bool
  | .nil | .skip => Unit
  | .int => Int64
  | .string => String
  | .stringOrNil => Option String
  | .bytes => Bytes
  | .arrayHeader | .mapHeader => Nat
  | .value => Value
  | .messageType => MessageType

def read (limit : Nat) : (op : Operation) → Reader op.Answer
  | .peekMarker => HubPack.peekMarker
  | .peekNil => HubPack.peekNil
  | .marker => readMarker
  | .nil => readNil
  | .bool => readBool
  | .int => readInt
  | .string => readString
  | .stringOrNil => readStringOrNil
  | .bytes => readBytes
  | .arrayHeader => readArrayHeader
  | .mapHeader => readMapHeader
  | .value => readValue limit
  | .skip => skipValue limit
  | .messageType => readMessageType

end Operation

/-- What a single read may fail with. Only the read of a type knows of types. -/
inductive OperationError : WireError → Prop where
  | read {e : WireError} : ReadError e → OperationError e
  | unknownType (code : Int) : OperationError (.unknownMessageType code)

theorem orderly_messageType : Orderly OperationError readMessageType := by
  apply (orderly_int.imp fun e => OperationError.read).bind
  intro code
  split
  · exact .done _
  · exact .failed (.unknownType _) nofun

theorem orderly_operation (limit : Nat) (op : Operation) :
    Orderly OperationError (op.read limit) := by
  have plain {α : Type} {r : Reader α} (h : Orderly ReadError r) : Orderly OperationError r :=
    h.imp fun e => .read
  cases op with
  | peekMarker => exact plain orderly_peekMarker
  | peekNil => exact plain orderly_peekNil
  | marker => exact plain orderly_marker
  | nil => exact plain orderly_nil
  | bool => exact plain orderly_bool
  | int => exact plain orderly_int
  | string => exact plain orderly_string
  | stringOrNil => exact plain orderly_stringOrNil
  | bytes => exact plain orderly_rawBytes
  | arrayHeader => exact plain orderly_arrayHeader
  | mapHeader => exact plain orderly_mapHeader
  | value => exact plain (orderly_value limit)
  | skip => exact plain (orderly_skip limit)
  | messageType => exact orderly_messageType

theorem Orderly.wantsMore_of_cut {α : Type} {E : WireError → Prop} {r : Reader α}
    (hr : Orderly E r) {bs form rest : Bytes} {a : α} (whole : r (form ++ rest) = .ok a rest)
    (before : bs <+: form) (cut : bs ≠ form) : WantsMore (r bs) := by
  obtain ⟨missing, rfl⟩ := before
  have some : 0 < missing.length := by
    apply List.length_pos_of_ne_nil
    rintro rfl
    exact cut (List.append_nil bs).symm
  rw [List.append_assoc] at whole
  apply hr.wantsMore (x := missing ++ rest)
  rw [whole, List.length_append]
  change rest.length < missing.length + rest.length
  omega

/-- A read that does not want bytes does the same before any bytes: it gives the same answer or the
same error, and leaves the bytes that it left and those that came. A read that wants bytes wants no
more once enough of them come. So a read wants bytes whenever it takes more than there is if more is
there, and the bytes of an answer, cut off before their end, are neither read nor malformed. -/
theorem wantsMore_exactly (limit : Nat) (op : Operation) (bs : Bytes) :
    (¬WantsMore (op.read limit bs) →
      ∀ x, op.read limit (bs ++ x) = followedBy x (op.read limit bs)) ∧
    (WantsMore (op.read limit bs) → ∃ x, ¬WantsMore (op.read limit (bs ++ x))) ∧
    (∀ (x rest : Bytes) (a : op.Answer), op.read limit (bs ++ x) = .ok a rest →
      rest.length < x.length → WantsMore (op.read limit bs)) ∧
    ∀ (form rest : Bytes) (a : op.Answer), op.read limit (form ++ rest) = .ok a rest →
      bs <+: form → bs ≠ form → WantsMore (op.read limit bs) := by
  have orderly := orderly_operation limit op
  refine ⟨fun enough => orderly.steady enough, fun _ => orderly.settles bs, ?_, ?_⟩
  · intro x rest a read past
    apply orderly.wantsMore (x := x)
    rw [read]
    exact past
  · intro form rest a whole before cut
    exact orderly.wantsMore_of_cut whole before cut

theorem wantsMore_exactly_array :
    WantsMore (Operation.value.read 1 [0x92, 0xa1]) ∧
    ∀ x, Operation.value.read 1 ([0x91, 0xc1] ++ x) =
      .error (.malformedValue (.unexpected .value .reserved)) ([0xc1] ++ x) := by
  constructor
  · have whole : readValue 1 ([0x92, 0xa1, 98, 5] ++ [7]) =
        .ok (.array [.string "b", .int 5]) [7] := by
      cbv
    obtain ⟨-, -, -, cut⟩ := wantsMore_exactly 1 .value [0x92, 0xa1]
    exact cut [0x92, 0xa1, 98, 5] [7] _ whole (by decide) (by decide)
  · have found : readValue 1 [0x91, 0xc1] =
        .error (.malformedValue (.unexpected .value .reserved)) [0xc1] := by
      cbv
    intro x
    have steady := (wantsMore_exactly 1 .value [0x91, 0xc1]).1
    rw [Operation.read, found, wantsMore_error_iff] at steady
    exact steady (by decide) x

end HubPack
