import HubPack.Cursor
import HubPack.Proofs.Reading.Nested
import HubPack.Proofs.Reading.Operations
import HubPack.Proofs.Reading.Weight

namespace HubPack
open Wire

def Operation.peeks : Operation → Bool
  | .peekMarker | .peekNil => true
  | _ => false

section Advance

theorem unread_of_peeks {op : Operation} (peeks : op.peeks) (limit : Nat) (bs : Bytes) :
    unread (op.read limit bs) = bs := by
  cases op with
  | peekMarker | peekNil => cases bs <;> rfl
  | _ => cases peeks

variable {α : Type} {limit : Nat} {bs rest : Bytes}

theorem Reads.advances {r : Reader α} {P : α → Bytes → Prop} (h : Reads r P)
    (filled : ∀ a e, P a e → 0 < e.length) {a : α} (read : r bs = .ok a rest) :
    rest.length < bs.length := by
  obtain ⟨e, form, rfl⟩ := h.sound read
  have some := filled a e form
  rw [List.length_append]
  omega

theorem readValueWithin_advances {levels : Nat} {v : Value}
    (h : readValueWithin limit levels bs = .ok v rest) : rest.length < bs.length :=
  (reads_within limit levels).advances (fun _ _ form => form.pos) h

theorem readInt_advances {i : Int64} (h : readInt bs = .ok i rest) : rest.length < bs.length :=
  reads_int.advances (fun _ _ form => form.pos) h

theorem readMessageType_advances {type : MessageType} (h : readMessageType bs = .ok type rest) :
    rest.length < bs.length := by
  obtain ⟨code, mid, read, found⟩ := bind_eq_ok_iff.mp h
  generalize MessageType.ofCode? code.toInt = known at found
  cases known <;> cases found
  exact readInt_advances read

theorem operation_advances {op : Operation} (reads : ¬op.peeks) {a : op.Answer}
    (h : op.read limit bs = .ok a rest) : rest.length < bs.length := by
  cases op with
  | peekMarker | peekNil => exact absurd rfl reads
  | marker =>
    refine reads_marker.advances ?_ h
    rintro m _ rfl
    exact Nat.one_pos
  | nil => exact reads_nil.advances (fun _ _ form => form.pos) h
  | bool => exact reads_bool.advances (fun _ _ form => form.pos) h
  | int => exact readInt_advances h
  | string => exact reads_text.advances (fun _ _ form => form.pos) h
  | stringOrNil =>
    exact reads_textOrNil.advances (fun _ _ form => form.pos fun _ _ text => text.pos) h
  | bytes => exact reads_raw.advances (fun _ _ form => form.pos) h
  | arrayHeader => exact reads_arrayHeader.advances (fun _ _ form => form.pos) h
  | mapHeader => exact reads_mapHeader.advances (fun _ _ form => form.pos) h
  | value => exact readValueWithin_advances h
  | skip =>
    obtain ⟨v, mid, read, done⟩ := bind_eq_ok_iff.mp h
    cases done
    exact readValueWithin_advances read
  | messageType => exact readMessageType_advances h

end Advance

namespace Cursor

variable {α : Type} {E : WireError → Prop} {limit : Nat} {b : Bytes} {c : Cursor}

section Read

variable {r : Nat → Reader α}

theorem snd_read (c : Cursor) (r : Nat → Reader α) :
    (c.read r).2 = c.moveTo (unread (r c.limit c.rest)) := by
  rw [read]
  cases r c.limit c.rest <;> rfl

theorem read_of_ok {a : α} {rest : Bytes} (h : r c.limit c.rest = .ok a rest) :
    c.read r = (.ok a, c.moveTo rest) := by
  rw [read, h]

theorem read_of_error {e : WireError} {rest : Bytes} (h : r c.limit c.rest = .error e rest) :
    c.read r = (.error e, c.moveTo rest) := by
  rw [read, h]

theorem eq_ok_of_read {a : α} (h : (c.read r).1 = .ok a) :
    r c.limit c.rest = .ok a (c.read r).2.rest := by
  cases answer : r c.limit c.rest with
  | ok a' rest =>
    rw [read_of_ok answer] at h ⊢
    cases h
    rfl
  | error e rest =>
    rw [read_of_error answer] at h
    cases h

theorem eq_error_of_read {e : WireError} (h : (c.read r).1 = .error e) :
    r c.limit c.rest = .error e (c.read r).2.rest := by
  cases answer : r c.limit c.rest with
  | ok a rest =>
    rw [read_of_ok answer] at h
    cases h
  | error e' rest =>
    rw [read_of_error answer] at h ⊢
    cases h
    rfl

theorem read_congr {d : Cursor} (limits : c.limit = d.limit) (rests : c.rest = d.rest) :
    (c.read r).1 = (d.read r).1 ∧ (c.read r).2.rest = (d.read r).2.rest := by
  rw [read, read, limits, rests]
  cases r d.limit d.rest <;> exact ⟨rfl, rfl⟩

theorem position_le_read (hr : Orderly E (r c.limit)) : c.position ≤ (c.read r).2.position := by
  have shorter := (hr.suffix c.rest).length_le
  rw [snd_read]
  exact Nat.sub_le_sub_left shorter _

end Read

/-- The cursor stands in `b`: what it has not read is an end of it. -/
structure StandsIn (limit : Nat) (b : Bytes) (c : Cursor) : Prop where
  buffer : c.buffer = b
  limit : c.limit = limit
  suffix : c.rest <:+ b

/-- What a read does to a cursor in `b`, whether it answers or fails: it leaves an end of `b`, the
one from its new position on; it does not go back; and it does what it does to a new cursor over
the bytes that were left to read. -/
structure KeepsPlace (limit : Nat) (b : Bytes) (c : Cursor) (r : Nat → Reader α) : Prop where
  unread : c.rest = b.drop c.position
  suffix : (c.read r).2.rest <:+ b
  total : (c.read r).2.position + (c.read r).2.remaining = b.length
  forward : c.position ≤ (c.read r).2.position
  sameOutcome : (c.read r).1 = ((start limit c.rest).read r).1
  sameRest : (c.read r).2.rest = ((start limit c.rest).read r).2.rest

namespace StandsIn

variable {r : Nat → Reader α}

theorem of_start (limit : Nat) (b : Bytes) : (start limit b).StandsIn limit b :=
  ⟨rfl, rfl, List.suffix_refl b⟩

theorem position_add_remaining (h : c.StandsIn limit b) :
    c.position + c.remaining = b.length := by
  have inside := h.suffix.length_le
  rw [position, remaining, h.buffer]
  omega

theorem rest_eq (h : c.StandsIn limit b) : c.rest = b.drop c.position := by
  rw [position, h.buffer]
  exact List.suffix_iff_eq_drop.mp h.suffix

theorem read (h : c.StandsIn limit b) (hr : Orderly E (r c.limit)) :
    (c.read r).2.StandsIn limit b := by
  rw [snd_read]
  exact ⟨h.buffer, h.limit, (hr.suffix c.rest).trans h.suffix⟩

theorem keepsPlace (h : c.StandsIn limit b) (hr : Orderly E (r c.limit)) :
    c.KeepsPlace limit b r where
  unread := h.rest_eq
  suffix := (h.read hr).suffix
  total := (h.read hr).position_add_remaining
  forward := position_le_read hr
  sameOutcome := (read_congr (d := start limit c.rest) h.limit rfl).1
  sameRest := (read_congr (d := start limit c.rest) h.limit rfl).2

theorem position_lt (h : c.StandsIn limit b) {rest : Bytes}
    (shorter : rest.length < c.rest.length) : c.position < (c.moveTo rest).position := by
  have inside := h.suffix.length_le
  rw [position, position, buffer_moveTo, rest_moveTo, h.buffer]
  omega

theorem read_advances (h : c.StandsIn limit b)
    (advances : ∀ a rest, r c.limit c.rest = .ok a rest → rest.length < c.rest.length) {a : α}
    (answer : (c.read r).1 = .ok a) : c.position < (c.read r).2.position := by
  have read := eq_ok_of_read answer
  rw [read_of_ok read]
  exact h.position_lt (advances a _ read)

theorem moveTo (h : c.StandsIn limit b) {place : Bytes} (later : place <:+ c.rest) :
    (c.moveTo place).StandsIn limit b :=
  ⟨h.buffer, h.limit, later.trans h.suffix⟩

end StandsIn

structure Step where
  before : Cursor
  op : Operation

namespace Step

def outcome (s : Step) : Except WireError s.op.Answer :=
  (s.before.read fun limit => s.op.read limit).1

def after (s : Step) : Cursor := (s.before.read fun limit => s.op.read limit).2

end Step

/-- The steps of a run. Each begins where the one before it has ended, also if that one failed. -/
def steps (c : Cursor) : List Operation → List Step
  | [] => []
  | op :: ops =>
    let s : Step := ⟨c, op⟩
    s :: s.after.steps ops

theorem map_op_steps (c : Cursor) (ops : List Operation) : (c.steps ops).map Step.op = ops := by
  induction ops generalizing c with
  | nil => rfl
  | cons op ops ih => exact congrArg (op :: ·) (ih _)

theorem Step.position_le (s : Step) : s.before.position ≤ s.after.position :=
  position_le_read (orderly_operation s.before.limit s.op)

theorem position_le_of_mem_steps {ops : List Operation} {s : Step} (mem : s ∈ c.steps ops) :
    c.position ≤ s.before.position := by
  induction ops generalizing c with
  | nil => cases mem
  | cons op ops ih =>
    rcases List.mem_cons.mp mem with rfl | later
    · exact Nat.le_refl _
    · exact Nat.le_trans (Step.position_le ⟨c, op⟩) (ih later)

theorem steps_ordered (c : Cursor) (ops : List Operation) :
    (c.steps ops).Pairwise fun s t => s.after.position ≤ t.before.position := by
  induction ops generalizing c with
  | nil => exact .nil
  | cons op ops ih => exact List.pairwise_cons.mpr ⟨fun _ => position_le_of_mem_steps, ih _⟩

theorem standsIn_of_mem_steps {ops : List Operation} (h : c.StandsIn limit b) {s : Step}
    (mem : s ∈ c.steps ops) : s.before.StandsIn limit b := by
  induction ops generalizing c with
  | nil => cases mem
  | cons op ops ih =>
    rcases List.mem_cons.mp mem with rfl | later
    · exact h
    · exact ih (h.read (orderly_operation c.limit op)) later

theorem Step.after_of_peeks {s : Step} (peeks : s.op.peeks) : s.after = s.before := by
  rw [Step.after, snd_read, unread_of_peeks peeks]
  rfl

theorem read_error_of_value {op : Operation} (value : op = .value ∨ op = .skip) {bs rest : Bytes}
    {e : WireError} (failed : readValue limit bs = .error e rest) :
    op.read limit bs = .error e rest := by
  rcases value with rfl | rfl
  · exact failed
  · exact bind_of_error failed

/-- A member whose read fails, at any depth, ends the operation: with its error, and where it
ends itself. -/
theorem Step.ends_of_reaches {s : Step} (h : s.before.StandsIn limit b)
    (value : s.op = .value ∨ s.op = .skip) {levels : Nat} {place : Bytes}
    (reaches : Reaches limit limit s.before.rest levels place) {e : WireError}
    (failed : ((s.before.moveTo place).read fun limit => readValueWithin limit levels).1 =
      .error e) :
    s.outcome = .error e ∧
      s.after = ((s.before.moveTo place).read fun limit => readValueWithin limit levels).2 := by
  have inner := eq_error_of_read failed
  rw [limit_moveTo, rest_moveTo, h.limit] at inner
  have whole := read_error_of_value value (reaches.readValueWithin_error inner)
  rw [← h.limit] at whole
  rw [Step.outcome, Step.after, read_of_error (r := fun limit => s.op.read limit) whole, snd_read]
  exact ⟨rfl, rfl⟩

/-- A run over `b`, in which operations may fail. Every operation has its turn, and no step begins
before the end of an earlier one. Each step keeps its place in `b`: a look moves nothing, and any
other answer takes the cursor forward. The same holds of the reads of members at any depth to which
the read or the skip of a value comes, and a member that fails ends the operation as it does
itself. -/
theorem steps_keep_place (limit : Nat) (b : Bytes) (ops : List Operation) :
    ((start limit b).steps ops).map Step.op = ops ∧
    ((start limit b).steps ops).Pairwise (fun s t => s.after.position ≤ t.before.position) ∧
    ∀ s ∈ (start limit b).steps ops,
      s.before.KeepsPlace limit b (fun limit => s.op.read limit) ∧
      (s.op.peeks → s.after = s.before) ∧
      (¬s.op.peeks → ∀ a, s.outcome = .ok a → s.before.position < s.after.position) ∧
      (s.op = .value ∨ s.op = .skip → ∀ levels place,
        Reaches limit limit s.before.rest levels place →
        let inner := s.before.moveTo place
        let member := fun limit => readValueWithin limit levels
        s.before.position ≤ inner.position ∧ inner.KeepsPlace limit b member ∧
        (∀ v, (inner.read member).1 = .ok v → inner.position < (inner.read member).2.position) ∧
        ∀ e, (inner.read member).1 = .error e →
          s.outcome = .error e ∧ s.after = (inner.read member).2) := by
  refine ⟨map_op_steps _ ops, steps_ordered _ ops, fun s mem => ?_⟩
  have place := standsIn_of_mem_steps (.of_start limit b) mem
  refine ⟨place.keepsPlace (orderly_operation _ s.op), Step.after_of_peeks,
    fun reads a answer => ?_, fun value levels spot reaches => ?_⟩
  · exact place.read_advances (fun a rest => operation_advances reads) answer
  · have inner := place.moveTo reaches.suffix
    refine ⟨Nat.sub_le_sub_left reaches.suffix.length_le _,
      inner.keepsPlace (orderly_within _ levels), fun v answer => ?_, fun e failed => ?_⟩
    · exact inner.read_advances (fun v rest => readValueWithin_advances) answer
    · exact Step.ends_of_reaches place value reaches failed

/-- The second member of an array is an array of a byte that begins no value. -/
def stray : Bytes := [0x92, 0xc3, 0x91, 0xc1, 7]

theorem steps_keep_place_stray :
    let whole : Step := ⟨start 2 stray, .value⟩
    let next : Step := ⟨whole.after, .marker⟩
    let steps := (start 2 stray).steps [.peekNil, .value, .marker, .int, .bool]
    whole ∈ steps ∧ next ∈ steps ∧ Reaches 2 2 stray 0 [0xc1, 7] ∧
    whole.outcome = .error (.malformedValue (.unexpected .value .reserved)) ∧
    whole.after.rest = [0xc1, 7] ∧ next.before.position < next.after.position := by
  intro whole next steps
  have inner : Reaches 2 1 [0x91, 0xc1, 7] 0 [0xc1, 7] :=
    .member (k := 0) (.array rfl) Nat.one_pos rfl .self
  have before : readMany (readValueWithin 2 1) 1 [0xc3, 0x91, 0xc1, 7] =
      .ok [.bool true] [0x91, 0xc1, 7] := by cbv
  have reaches : Reaches 2 2 stray 0 [0xc1, 7] := .member (.array rfl) Nat.one_lt_two before inner
  have first : whole ∈ steps := .tail _ (.head _)
  have second : next ∈ steps := .tail _ (.tail _ (.head _))
  obtain ⟨-, -, each⟩ := steps_keep_place 2 stray [.peekNil, .value, .marker, .int, .bool]
  obtain ⟨-, -, -, members⟩ := each whole first
  obtain ⟨-, -, -, ends⟩ := members (.inl rfl) 0 [0xc1, 7] reaches
  have stuck : ((start 2 stray).moveTo [0xc1, 7]).read (fun limit => readValueWithin limit 0) =
      (.error (.malformedValue (.unexpected .value .reserved)), ⟨stray, [0xc1, 7], 2⟩) := by cbv
  obtain ⟨failed, left⟩ := ends _ (congrArg Prod.fst stuck)
  have stopped : whole.after = ⟨stray, [0xc1, 7], 2⟩ := left.trans (congrArg Prod.snd stuck)
  have answer : (Step.mk whole.after .marker).outcome = .ok .reserved := by
    rw [stopped]
    rfl
  obtain ⟨-, -, forward, -⟩ := each next second
  exact ⟨first, second, reaches, failed, congrArg Cursor.rest stopped,
    forward (by decide) .reserved answer⟩

end Cursor

end HubPack
