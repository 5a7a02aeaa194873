import Mathlib.Logic.Basic

universe u

namespace ChattingServer.Lib

inductive Turn (σ : Type u)
  | again (s : σ)
  | done (s : σ)

namespace Turn

variable {σ : Type u}

def iterate (body : σ → Turn σ) : Nat → σ → Option σ
  | 0, _ => none
  | n + 1, s =>
    match body s with
    | .again s => iterate body n s
    | .done s => some s

theorem iterate_again {body : σ → Turn σ} {s s' : σ} (h : body s = .again s') (n : Nat) :
    iterate body (n + 1) s = iterate body n s' := by
  simp [iterate, h]

theorem iterate_done {body : σ → Turn σ} {s s' : σ} (h : body s = .done s') (n : Nat) :
    iterate body (n + 1) s = some s' := by
  simp [iterate, h]

theorem exists_iterate {body : σ → Turn σ} {I Q : σ → Prop} {V : σ → Nat}
    (turn : ∀ s, I s → (∃ s', body s = .again s' ∧ I s' ∧ V s' < V s) ∨
      ∃ s', body s = .done s' ∧ Q s')
    {n : Nat} {s : σ} (hs : I s) (hn : V s < n) :
    ∃ s', iterate body n s = some s' ∧ Q s' := by
  induction n generalizing s with
  | zero => exact absurd hn (Nat.not_lt_zero _)
  | succ n ih =>
    rcases turn s hs with ⟨s', hbody, hI, hV⟩ | ⟨s', hbody, hQ⟩
    · rw [iterate_again hbody]
      exact ih hI (Nat.lt_of_lt_of_le hV (Nat.le_of_lt_succ hn))
    · exact ⟨s', iterate_done hbody n, hQ⟩

theorem iterate_eq_none {body : σ → Turn σ} {I : σ → Prop}
    (turn : ∀ s, I s → ∃ s', body s = .again s' ∧ I s') (n : Nat) {s : σ} (hs : I s) :
    iterate body n s = none := by
  induction n generalizing s with
  | zero => rfl
  | succ n ih =>
    obtain ⟨s', hbody, hI⟩ := turn s hs
    rw [iterate_again hbody]
    exact ih hI

end Turn

end ChattingServer.Lib
