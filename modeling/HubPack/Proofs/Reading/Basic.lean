import HubPack.Reader
import HubPack.Proofs.Wire.Value

/-!
Readers against wire forms. `Reads r P` says that `r` accepts exactly the bytes that begin with a
form of some answer, gives that answer, and leaves what follows the form. The lemmas here carry it
through the combinators that readers are built from.
-/
namespace HubPack

variable {α β : Type}

/-- What `r` reads is exactly what `P` relates to the answer. -/
structure Reads (r : Reader α) (P : α → Bytes → Prop) : Prop where
  complete {a : α} {e : Bytes} (h : P a e) (rest : Bytes) : r (e ++ rest) = .ok a rest
  sound {bs rest : Bytes} {a : α} (h : r bs = .ok a rest) : ∃ e, P a e ∧ bs = e ++ rest

theorem bind_eq_ok_iff {r : Reader α} {k : α → Reader β} {bs rest : Bytes} {b : β} :
    (r >>= k) bs = .ok b rest ↔ ∃ a mid, r bs = .ok a mid ∧ k a mid = .ok b rest := by
  change EStateM.bind r k bs = _ ↔ _
  rw [EStateM.bind]
  cases r bs with
  | ok a mid => simp
  | error e mid => simp

theorem bind_of_ok {r : Reader α} {k : α → Reader β} {bs mid : Bytes} {a : α}
    (h : r bs = .ok a mid) : (r >>= k) bs = k a mid := by
  change EStateM.bind r k bs = _
  rw [EStateM.bind, h]

theorem bind_of_error {r : Reader α} {k : α → Reader β} {bs rest : Bytes} {e : WireError}
    (h : r bs = .error e rest) : (r >>= k) bs = .error e rest := by
  change EStateM.bind r k bs = _
  rw [EStateM.bind, h]

theorem map_of_ok {r : Reader α} {f : α → β} {bs rest : Bytes} {a : α} (h : r bs = .ok a rest) :
    (f <$> r) bs = .ok (f a) rest := bind_of_ok h

theorem map_of_error {r : Reader α} {f : α → β} {bs rest : Bytes} {e : WireError}
    (h : r bs = .error e rest) : (f <$> r) bs = .error e rest := bind_of_error h

namespace Reads

variable {r : Reader α} {P Q : α → Bytes → Prop}

theorem eq_ok_iff (h : Reads r P) {a : α} {e rest : Bytes} :
    r (e ++ rest) = .ok a rest ↔ P a e := by
  constructor
  · intro read
    obtain ⟨f, form, same⟩ := h.sound read
    rwa [List.append_cancel_right same]
  · exact fun form => h.complete form rest

theorem congr (h : Reads r P) (same : ∀ a e, P a e ↔ Q a e) : Reads r Q where
  complete hq rest := h.complete ((same _ _).mpr hq) rest
  sound hr := by
    obtain ⟨e, hp, eq⟩ := h.sound hr
    exact ⟨e, (same _ _).mp hp, eq⟩

theorem done (a : α) : Reads (pure a) fun b e => b = a ∧ e = [] where
  complete h rest := by
    obtain ⟨rfl, rfl⟩ := h
    rfl
  sound h := by
    cases h
    exact ⟨[], ⟨rfl, rfl⟩, rfl⟩

theorem never (e : WireError) : Reads (throw e : Reader α) fun _ _ => False where
  complete h := h.elim
  sound h := nomatch h

theorem malformed (cause : Malformed) : Reads (malformed cause : Reader α) fun _ _ => False :=
  never _

theorem bind {k : α → Reader β} {R : α → β → Bytes → Prop} (hr : Reads r P)
    (hk : ∀ a, Reads (k a) (R a)) :
    Reads (r >>= k) fun b e => ∃ a e₁ e₂, P a e₁ ∧ R a b e₂ ∧ e = e₁ ++ e₂ where
  complete h rest := by
    obtain ⟨a, e₁, e₂, hp, hR, rfl⟩ := h
    rw [List.append_assoc, bind_of_ok (hr.complete hp _), (hk a).complete hR]
  sound h := by
    obtain ⟨a, mid, ha, hb⟩ := bind_eq_ok_iff.mp h
    obtain ⟨e₁, hp, rfl⟩ := hr.sound ha
    obtain ⟨e₂, hR, rfl⟩ := (hk a).sound hb
    exact ⟨e₁ ++ e₂, ⟨a, e₁, e₂, hp, hR, rfl⟩, (List.append_assoc ..).symm⟩

theorem map (f : α → β) (hr : Reads r P) :
    Reads (f <$> r) fun b e => ∃ a, P a e ∧ b = f a := by
  refine (hr.bind fun a => done (f a)).congr fun b e => ⟨?_, ?_⟩
  · rintro ⟨a, e₁, e₂, hp, ⟨rfl, rfl⟩, rfl⟩
    exact ⟨a, by rwa [List.append_nil], rfl⟩
  · rintro ⟨a, hp, rfl⟩
    exact ⟨a, e, [], hp, ⟨rfl, rfl⟩, (List.append_nil e).symm⟩

theorem many (hr : Reads r P) (n : Nat) :
    Reads (readMany r n) fun as e => as.length = n ∧ Wire.Sequence P as e := by
  induction n with
  | zero =>
    refine (done []).congr fun as e => ⟨?_, ?_⟩
    · rintro ⟨rfl, rfl⟩
      exact ⟨rfl, .nil⟩
    · rintro ⟨empty, s⟩
      cases s with
      | nil => exact ⟨rfl, rfl⟩
      | cons => cases empty
  | succ n ih =>
    refine (hr.bind fun a => ih.bind fun as => done (a :: as)).congr fun as e => ⟨?_, ?_⟩
    · rintro ⟨a, e₁, _, hp, ⟨tail, e₂, e₃, ⟨rfl, s⟩, ⟨rfl, rfl⟩, rfl⟩, rfl⟩
      exact ⟨rfl, by rw [List.append_nil]; exact .cons hp s⟩
    · rintro ⟨length, s⟩
      cases s with
      | nil => cases length
      | cons hp s =>
        exact ⟨_, _, _, hp, ⟨_, _, [], ⟨Nat.succ.inj length, s⟩, ⟨rfl, rfl⟩, rfl⟩,
          by rw [List.append_nil]⟩

theorem pair {r' : Reader β} {R : β → Bytes → Prop} (hr : Reads r P) (hr' : Reads r' R) :
    Reads (readPair r r') (Wire.Pair P R) := by
  refine (hr.bind fun a => hr'.bind fun b => done (a, b)).congr fun ab e => ⟨?_, ?_⟩
  · rintro ⟨a, e₁, _, hp, ⟨b, e₂, _, hR, ⟨rfl, rfl⟩, rfl⟩, rfl⟩
    rw [List.append_nil]
    exact .mk hp hR
  · rintro ⟨hp, hR⟩
    exact ⟨_, _, _, hp, ⟨_, _, [], hR, ⟨rfl, rfl⟩, rfl⟩, by rw [List.append_nil]⟩

/-- No form is the beginning of another, and none stands for two answers. -/
theorem unique (hr : Reads r P) {a b : α} {e f x y : Bytes} (ha : P a e) (hb : P b f)
    (same : e ++ x = f ++ y) : a = b ∧ e = f ∧ x = y := by
  have read := hr.complete ha x
  rw [same, hr.complete hb y] at read
  cases read
  exact ⟨rfl, List.append_cancel_right same, rfl⟩

end Reads

end HubPack
