import ChattingServer.Lib.Refinement

universe u v w

namespace ChattingServer.Lib.System

variable {σ : Type u} {α : Type v} {ε : Type w}

/-- What makes no difference to an observer: hidden steps leave a state looking the same, and the
other steps are possible in whatever looks the same, and keep it so. -/
structure Unwinding (S : System σ α ε) where
  same : σ → σ → Prop
  hidden : σ → α → Bool
  leaves : ∀ {s s' t : σ} {a : α}, same s t → hidden s a = true → S.step s a = .ok s' → same s' t
  follows : ∀ {s s' t : σ} {a : α}, same s t → hidden s a = false → S.step s a = .ok s' →
    ∃ t', S.step t a = .ok t' ∧ same s' t'

def Unwinding.purge {S : System σ α ε} (f : S.Unwinding) (p : List (σ × α)) : List α :=
  (p.filter fun x => !f.hidden x.1 x.2).map Prod.snd

theorem Unwinding.exists_run {S : System σ α ε} (f : S.Unwinding) {G : σ → α → Prop} {s s' t : σ}
    {p : List (σ × α)} (h : S.Path G s p s') (hst : f.same s t) :
    ∃ t', S.run t (f.purge p) = some t' ∧ f.same s' t' := by
  induction h generalizing t with
  | nil => exact ⟨t, rfl, hst⟩
  | @cons s s' s'' a p _ hs _ ih =>
    cases hhidden : f.hidden s a with
    | true =>
      have hpurge : f.purge ((s, a) :: p) = f.purge p := by simp [purge, hhidden]
      rw [hpurge]
      exact ih (f.leaves hst hhidden hs)
    | false =>
      have hpurge : f.purge ((s, a) :: p) = a :: f.purge p := by simp [purge, hhidden]
      obtain ⟨t', ht, hsame⟩ := f.follows hst hhidden hs
      obtain ⟨t'', hrun, hsame'⟩ := ih hsame
      exact ⟨t'', by simpa [hpurge, run, runWith, ht] using hrun, hsame'⟩

end ChattingServer.Lib.System
