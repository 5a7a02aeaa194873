import Mathlib.Data.List.Forall2

universe u v

namespace ChattingServer.Lib

variable {ε : Type u} {α β : Type v}

theorem bind_eq_ok_iff {x : Except ε α} {f : α → Except ε β} {b : β} :
    x >>= f = .ok b ↔ ∃ a, x = .ok a ∧ f a = .ok b := by
  cases x with
  | error e => simp [bind, Except.bind]
  | ok a => simp [bind, Except.bind]

@[simp] theorem ok_bind (a : α) (f : α → Except ε β) : (Except.ok a : Except ε α) >>= f = f a := rfl

@[simp] theorem pure_eq_ok (a : α) : (pure a : Except ε α) = .ok a := rfl

theorem map_bind_comm {x : Except ε α} {f : α → Except ε β} {g : α → α} {k : β → β}
    (h : ∀ a, f (g a) = (f a).map k) : x.map g >>= f = (x >>= f).map k := by
  cases x with
  | error e => rfl
  | ok a => exact h a

theorem mapError_bind_comm {δ : Type u} {γ : Type v} {x : Except ε α} {f : α → Except ε β}
    {g : α → Except δ γ} {e : ε → δ} {k : β → γ} (h : ∀ a, g a = ((f a).map k).mapError e) :
    x.mapError e >>= g = ((x >>= f).map k).mapError e := by
  cases x with
  | error e => rfl
  | ok a => exact h a

structure Fails (P : ε → Prop) (x : Except ε α) : Prop where
  of_error : ∀ {e : ε}, x = .error e → P e

theorem fails_ok (P : ε → Prop) (a : α) : Fails P (.ok a : Except ε α) := ⟨nofun⟩

@[simp] theorem fails_error {P : ε → Prop} {e : ε} : Fails P (.error e : Except ε α) ↔ P e :=
  ⟨fun h => h.of_error rfl, fun h => ⟨fun he => Except.error.inj he ▸ h⟩⟩

theorem Fails.mono {P Q : ε → Prop} {x : Except ε α} (h : Fails P x) (hPQ : ∀ e, P e → Q e) :
    Fails Q x :=
  ⟨fun he => hPQ _ (h.of_error he)⟩

theorem Fails.bind {P : ε → Prop} {x : Except ε α} {f : α → Except ε β} (hx : Fails P x)
    (hf : ∀ a, x = .ok a → Fails P (f a)) : Fails P (x >>= f) := by
  cases x with
  | error e => exact fails_error.mpr (fails_error.mp hx)
  | ok a => exact hf a rfl

def error? : Except ε α → Option ε
  | .error e => some e
  | .ok _ => none

theorem error?_eq_some_iff {x : Except ε α} {e : ε} : error? x = some e ↔ x = .error e := by
  cases x with
  | error e' => simp [error?]
  | ok a => simp [error?]

theorem toOption_eq_some_iff {x : Except ε α} {a : α} : x.toOption = some a ↔ x = .ok a := by
  cases x with
  | error e => simp [Except.toOption]
  | ok a' => simp [Except.toOption]

theorem mapM_eq_ok_iff {f : α → Except ε β} {as : List α} {bs : List β} :
    as.mapM f = .ok bs ↔ List.Forall₂ (fun a b => f a = .ok b) as bs := by
  induction as generalizing bs with
  | nil => simp [eq_comm]
  | cons a as ih =>
    rw [List.mapM_cons, bind_eq_ok_iff]
    constructor
    · rintro ⟨b, hb, hbs⟩
      obtain ⟨bs', hbs', hcons⟩ := bind_eq_ok_iff.mp hbs
      cases hcons
      exact .cons hb (ih.mp hbs')
    · rintro (_ | ⟨hb, hbs⟩)
      exact ⟨_, hb, bind_eq_ok_iff.mpr ⟨_, ih.mpr hbs, rfl⟩⟩

end ChattingServer.Lib
