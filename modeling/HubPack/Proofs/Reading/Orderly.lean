import HubPack.Message.Reader
import HubPack.Proofs.Reading.Length

/-!
What all reads have in common. A read takes bytes off the front; it fails for want of bytes or for
what it has found; unless it wants bytes, more of them behind those that are there change nothing;
and it does not want bytes for ever. The lemmas here carry this from the primitive reads to the read
of a message.
-/
namespace HubPack

variable {α β : Type}

def unread : EStateM.Result WireError Bytes α → Bytes
  | .ok _ rest | .error _ rest => rest

def followedBy (x : Bytes) : EStateM.Result WireError Bytes α → EStateM.Result WireError Bytes α
  | .ok a rest => .ok a (rest ++ x)
  | .error e rest => .error e (rest ++ x)

def WantsMore (outcome : EStateM.Result WireError Bytes α) : Prop :=
  ∃ rest, outcome = .error .insufficientData rest

theorem not_wantsMore_ok (a : α) (rest : Bytes) : ¬WantsMore (.ok a rest) := nofun

theorem wantsMore_error_iff {e : WireError} {rest : Bytes} :
    WantsMore (.error e rest : EStateM.Result WireError Bytes α) ↔ e = .insufficientData := by
  constructor
  · rintro ⟨_, same⟩
    cases same
    rfl
  · rintro rfl
    exact ⟨rest, rfl⟩

theorem unread_followedBy (x : Bytes) (outcome : EStateM.Result WireError Bytes α) :
    unread (followedBy x outcome) = unread outcome ++ x := by
  cases outcome <;> rfl

structure Orderly (E : WireError → Prop) (r : Reader α) : Prop where
  suffix (bs : Bytes) : unread (r bs) <:+ bs
  steady {bs : Bytes} (enough : ¬WantsMore (r bs)) (x : Bytes) : r (bs ++ x) = followedBy x (r bs)
  settles (bs : Bytes) : ∃ x, ¬WantsMore (r (bs ++ x))
  fails {bs rest : Bytes} {e : WireError} (h : r bs = .error e rest) : E e

/-- What a read of the bytes in a frame may fail with. That they end too early is not said of the
frame before its end is known to be the end of the bytes. -/
inductive ReadError : WireError → Prop where
  | short : ReadError .insufficientData
  | malformed {cause : Malformed} : cause ≠ .pastFrame → ReadError (.malformedValue cause)
  | violation (cause : Violation) : ReadError (.protocolViolation cause)

namespace Orderly

variable {E : WireError → Prop} {r : Reader α}

theorem done (a : α) : Orderly E (pure a : Reader α) where
  suffix bs := List.suffix_refl bs
  steady _ _ := rfl
  settles _ := ⟨[], nofun⟩
  fails h := nomatch h

theorem failed {e : WireError} (known : E e) (final : e ≠ .insufficientData) :
    Orderly E (throw e : Reader α) where
  suffix bs := List.suffix_refl bs
  steady _ _ := rfl
  settles _ := ⟨[], mt wantsMore_error_iff.mp final⟩
  fails h := by
    cases h
    exact known

theorem malformed {cause : Malformed} (inside : cause ≠ .pastFrame) :
    Orderly ReadError (malformed cause : Reader α) := failed (.malformed inside) nofun

theorem violation (cause : Violation) : Orderly ReadError (violation cause : Reader α) :=
  failed (.violation cause) nofun

theorem imp {F : WireError → Prop} (h : ∀ e, E e → F e) (hr : Orderly E r) : Orderly F r :=
  { hr with fails := fun failed => h _ (hr.fails failed) }

theorem bind {k : α → Reader β} (hr : Orderly E r) (hk : ∀ a, Orderly E (k a)) :
    Orderly E (r >>= k) where
  suffix bs := by
    have first := hr.suffix bs
    cases read : r bs with
    | ok a mid =>
      rw [read] at first
      rw [bind_of_ok read]
      exact ((hk a).suffix mid).trans first
    | error e rest =>
      rw [read] at first
      rw [bind_of_error read]
      exact first
  steady {bs} enough x := by
    cases read : r bs with
    | ok a mid =>
      have more := hr.steady (read ▸ not_wantsMore_ok a mid) x
      rw [read] at more
      rw [bind_of_ok read] at enough ⊢
      rw [bind_of_ok more]
      exact (hk a).steady enough x
    | error e rest =>
      rw [bind_of_error read] at enough ⊢
      rw [wantsMore_error_iff] at enough
      have more := hr.steady (read ▸ mt wantsMore_error_iff.mp enough) x
      rw [read] at more
      exact bind_of_error more
  settles bs := by
    -- first bytes that settle the read before, then behind them bytes that settle the read after
    obtain ⟨x, first⟩ := hr.settles bs
    cases read : r (bs ++ x) with
    | ok a mid =>
      obtain ⟨y, second⟩ := (hk a).settles mid
      have more := hr.steady first y
      rw [read] at more
      refine ⟨x ++ y, ?_⟩
      rw [← List.append_assoc, bind_of_ok more]
      exact second
    | error e rest =>
      rw [read] at first
      refine ⟨x, ?_⟩
      rw [bind_of_error read]
      rwa [wantsMore_error_iff] at first ⊢
  fails {bs rest e} h := by
    cases read : r bs with
    | ok a mid =>
      rw [bind_of_ok read] at h
      exact (hk a).fails h
    | error f mid =>
      rw [bind_of_error read] at h
      cases h
      exact hr.fails read

theorem map (f : α → β) (hr : Orderly E r) : Orderly E (f <$> r) := by
  rw [← bind_pure_comp]
  exact hr.bind fun a => done (f a)

theorem suffix_of_ok (hr : Orderly E r) {bs rest : Bytes} {a : α} (h : r bs = .ok a rest) :
    rest <:+ bs := by
  have left := hr.suffix bs
  rwa [h] at left

theorem wantsMore (hr : Orderly E r) {bs x : Bytes}
    (past : (unread (r (bs ++ x))).length < x.length) : WantsMore (r bs) := by
  by_contra enough
  rw [hr.steady enough x, unread_followedBy, List.length_append] at past
  omega

theorem many (hr : Orderly E r) (n : Nat) : Orderly E (readMany r n) := by
  induction n with
  | zero => exact done []
  | succ n ih => exact hr.bind fun a => ih.bind fun as => done (a :: as)

theorem pair {r' : Reader β} (hr : Orderly E r) (hr' : Orderly E r') :
    Orderly E (readPair r r') :=
  hr.bind fun a => hr'.bind fun b => done (a, b)

end Orderly

section Primitive

theorem orderly_peekMarker : Orderly ReadError peekMarker where
  suffix bs := by cases bs <;> exact List.suffix_refl _
  steady {bs} enough x := by
    cases bs with
    | nil => exact absurd ⟨[], rfl⟩ enough
    | cons b bs => rfl
  settles bs := by cases bs <;> exact ⟨[0], nofun⟩
  fails {bs rest e} h := by
    cases bs with
    | nil =>
      cases h
      exact .short
    | cons b bs => cases h

theorem Orderly.taking {r : Reader α} (n : Nat) (f : Bytes → α) {lost : Bytes → Bytes}
    (eq : ∀ bs, r bs = if bs.length < n then .error .insufficientData (lost bs)
      else .ok (f (bs.take n)) (bs.drop n)) (suffix : ∀ bs, lost bs <:+ bs) :
    Orderly ReadError r where
  suffix bs := by
    rw [eq]
    split
    · exact suffix bs
    · exact List.drop_suffix n bs
  steady {bs} enough x := by
    rw [eq] at enough ⊢
    rw [eq]
    by_cases short : bs.length < n
    · rw [if_pos short] at enough
      exact absurd ⟨_, rfl⟩ enough
    · have long : ¬(bs ++ x).length < n := by
        rw [List.length_append]
        omega
      rw [if_neg short, if_neg long, List.take_append_of_le_length (Nat.not_lt.mp short),
        List.drop_append_of_le_length (Nat.not_lt.mp short)]
      rfl
  settles bs := by
    refine ⟨List.replicate n 0, ?_⟩
    have long : ¬(bs ++ List.replicate n 0).length < n := by
      rw [List.length_append, List.length_replicate]
      omega
    rw [eq, if_neg long]
    exact not_wantsMore_ok _ _
  fails {bs rest e} h := by
    rw [eq] at h
    split at h <;> cases h
    exact .short

theorem orderly_unsigned (width : Nat) : Orderly ReadError (readUnsigned width) :=
  .taking width ofBigEndian (readUnsigned_eq width) fun _ => List.nil_suffix

theorem orderly_bytes (n : Nat) : Orderly ReadError (takeBytes n) :=
  .taking n id (takeBytes_eq n) List.suffix_refl

theorem orderly_marker : Orderly ReadError readMarker := by
  refine .taking 1 (fun e => .ofByte (e.headD 0)) (fun bs => ?_) List.suffix_refl
  cases bs with
  | nil => rfl
  | cons b bs => rfl

theorem orderly_extent (x : Extent) : Orderly ReadError (readExtent x) := by
  cases x with
  | here n => exact .done n
  | next width => exact orderly_unsigned width

end Primitive

section Typed

open Orderly

theorem orderly_peekNil : Orderly ReadError peekNil :=
  orderly_peekMarker.bind fun _ => done _

theorem orderly_nil : Orderly ReadError readNil := by
  refine orderly_marker.bind fun m => ?_
  split
  · exact done ()
  · exact .malformed nofun

theorem orderly_bool : Orderly ReadError readBool := by
  refine orderly_marker.bind fun m => ?_
  split
  · exact done _
  · exact .malformed nofun

theorem orderly_integer : Orderly ReadError readInteger := by
  refine orderly_marker.bind fun m => ?_
  split
  · exact done _
  · exact (orderly_unsigned _).bind fun _ => done _
  · exact (orderly_unsigned _).bind fun _ => done _
  · exact .malformed nofun

theorem orderly_int : Orderly ReadError readInt := by
  refine orderly_integer.bind fun i => ?_
  split
  · exact done _
  · exact .malformed nofun

theorem orderly_string : Orderly ReadError readString := by
  refine orderly_marker.bind fun m => ?_
  split
  · refine (orderly_extent _).bind fun n => (orderly_bytes n).bind fun bs => ?_
    split
    · exact done _
    · exact .malformed nofun
  · exact .malformed nofun

theorem orderly_stringOrNil : Orderly ReadError readStringOrNil := by
  refine orderly_peekNil.bind fun nil => ?_
  split
  · exact orderly_nil.bind fun _ => done none
  · exact orderly_string.bind fun s => done (some s)

theorem orderly_rawBytes : Orderly ReadError readBytes := by
  refine orderly_marker.bind fun m => ?_
  split
  · exact (orderly_extent _).bind orderly_bytes
  · exact .malformed nofun

theorem orderly_arrayHeader : Orderly ReadError readArrayHeader := by
  refine orderly_marker.bind fun m => ?_
  split
  · exact orderly_extent _
  · exact .malformed nofun

theorem orderly_mapHeader : Orderly ReadError readMapHeader := by
  refine orderly_marker.bind fun m => ?_
  split
  · exact orderly_extent _
  · exact .malformed nofun

theorem orderly_ext (x : Extent) : Orderly ReadError (readExt x) :=
  (orderly_extent x).bind fun n => (orderly_unsigned 1).bind fun _ =>
    (orderly_bytes n).bind fun _ => done _

end Typed

section Value

open Orderly

variable {limit : Nat}

theorem orderly_level {levels : Nat}
    (inner : ∀ l, levels = l + 1 → Orderly ReadError (readValueWithin limit l)) :
    Orderly ReadError (readValueWithin limit levels) := by
  rw [readValueWithin]
  refine orderly_peekMarker.bind fun m => ?_
  cases m.form with
  | nil => exact orderly_nil.bind fun _ => done _
  | bool => exact orderly_bool.map _
  | integer | unsigned | signed => exact orderly_integer.map _
  | single => exact orderly_marker.bind fun _ => (orderly_unsigned 4).map _
  | double => exact orderly_marker.bind fun _ => (orderly_unsigned 8).map _
  | string => exact orderly_string.map _
  | bytes => exact orderly_rawBytes.map _
  | array =>
    refine orderly_arrayHeader.bind fun n => ?_
    cases levels with
    | zero => exact .malformed nofun
    | succ l => exact ((inner l rfl).many n).map _
  | map =>
    refine orderly_mapHeader.bind fun n => ?_
    cases levels with
    | zero => exact .malformed nofun
    | succ l => exact (((inner l rfl).pair (inner l rfl)).many n).map _
  | ext x => exact orderly_marker.bind fun _ => orderly_ext x
  | reserved => exact .malformed nofun

theorem orderly_within (limit levels : Nat) : Orderly ReadError (readValueWithin limit levels) := by
  induction levels with
  | zero => exact orderly_level nofun
  | succ levels ih =>
    refine orderly_level fun l same => ?_
    rw [← Nat.succ.inj same]
    exact ih

theorem orderly_value (limit : Nat) : Orderly ReadError (readValue limit) :=
  orderly_within limit limit

theorem orderly_skip (limit : Nat) : Orderly ReadError (skipValue limit) :=
  (orderly_value limit).bind fun _ => done ()

end Value

section Message

open Orderly

variable {limit : Nat} {binder : Binder}

theorem orderly_headers : Orderly ReadError readHeaders :=
  orderly_mapHeader.bind fun n => ((orderly_string.pair orderly_string).many n).map _

theorem orderly_arguments (target : String) :
    Orderly ReadError (readArguments limit binder target) :=
  orderly_arrayHeader.bind fun n => ((orderly_value limit).many n).map _

theorem orderly_streamIds (fields : Nat) : Orderly ReadError (readStreamIds fields) := by
  unfold readStreamIds
  split
  · exact done none
  · refine orderly_peekNil.bind fun nil => ?_
    split
    · exact orderly_nil.bind fun _ => done none
    · exact orderly_arrayHeader.bind fun n => (orderly_string.many n).map some

theorem orderly_hinted (hint : Option Hint) : Orderly ReadError (readHinted limit hint) :=
  (orderly_value limit).map _

theorem orderly_outcome (id : String) (kind : ResultKind) :
    Orderly ReadError (readOutcome limit binder id kind) := by
  cases kind with
  | error => exact orderly_string.map _
  | void => exact done _
  | result => exact (orderly_hinted _).map _

theorem orderly_completion (fields : Nat) :
    Orderly ReadError (readCompletion limit binder fields) := by
  refine orderly_headers.bind fun headers => orderly_string.bind fun id =>
    orderly_int.bind fun code => ?_
  simp only
  cases ResultKind.ofCode? code.toInt with
  | none => exact .violation _
  | some kind =>
    by_cases few : fields < kind.fields
    · simp only [if_pos few]
      exact .violation _
    · by_cases many : kind.fields < fields
      · simp only [if_neg few, if_pos many]
        exact .malformed nofun
      · simp only [if_neg few, if_neg many]
        exact (orderly_outcome id kind).bind fun _ => done _

theorem orderly_body (fields : Nat) (type : MessageType) :
    Orderly ReadError (readBody limit binder fields type) := by
  cases type with
  | invocation =>
    exact orderly_headers.bind fun _ => orderly_stringOrNil.bind fun _ =>
      orderly_string.bind fun target => (orderly_arguments target).bind fun _ =>
        (orderly_streamIds fields).bind fun _ => done _
  | streamInvocation =>
    exact orderly_headers.bind fun _ => orderly_string.bind fun _ =>
      orderly_string.bind fun target => (orderly_arguments target).bind fun _ =>
        (orderly_streamIds fields).bind fun _ => done _
  | streamItem =>
    exact orderly_headers.bind fun _ => orderly_string.bind fun _ =>
      (orderly_hinted _).bind fun _ => done _
  | completion => exact (orderly_completion fields).bind fun _ => done _
  | cancelInvocation =>
    exact orderly_headers.bind fun _ => orderly_string.bind fun _ => done _
  | ping => exact done _
  | close =>
    refine orderly_stringOrNil.bind fun error => ?_
    split
    · exact done _
    · exact orderly_bool.bind fun _ => done _

theorem orderly_known (fields : Nat) (type : MessageType) :
    Orderly ReadError (readKnown limit binder fields type) := by
  unfold readKnown
  split
  · exact .violation _
  · exact (orderly_body fields type).bind fun _ =>
      ((orderly_skip limit).many _).bind fun _ => done _

theorem orderly_message (limit : Nat) (binder : Binder) :
    Orderly ReadError (readMessage limit binder) := by
  refine orderly_arrayHeader.bind fun fields => ?_
  split
  · exact .violation _
  · refine orderly_int.bind fun code => ?_
    simp only
    cases MessageType.ofCode? code.toInt with
    | none => exact done none
    | some type => exact (orderly_known fields type).map some

end Message

end HubPack
