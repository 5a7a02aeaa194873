import ChattingServer.Lib.Transition

universe u v w x y z

namespace ChattingServer.Lib

inductive Runs {τ : Type x} {β : Type y} (Step : τ → β → τ → Prop) : τ → List β → τ → Prop
  | nil {t : τ} : Runs Step t [] t
  | cons {t t' t'' : τ} {b : β} {bs : List β} :
    Step t b t' → Runs Step t' bs t'' → Runs Step t (b :: bs) t''

def Moves {τ : Type x} {β : Type y} (Step : τ → β → τ → Prop) (t : τ) : Option β → τ → Prop
  | none, t' => t' = t
  | some b, t' => Step t b t'

namespace System

variable {σ : Type u} {α : Type v} {ε : Type w} {τ : Type x} {β : Type y}

inductive Path (S : System σ α ε) (G : σ → α → Prop) : σ → List (σ × α) → σ → Prop
  | nil {s : σ} : Path S G s [] s
  | cons {s s' s'' : σ} {a : α} {p : List (σ × α)} :
    G s a → S.step s a = .ok s' → Path S G s' p s'' → Path S G s ((s, a) :: p) s''

theorem Path.reach {S : System σ α ε} {G : σ → α → Prop} {s s' : σ} {p : List (σ × α)}
    (h : S.Path G s p s') (hs : S.Reach G s) : S.Reach G s' := by
  induction h with
  | nil => exact hs
  | cons hg hstep _ ih => exact ih (.step hs hg hstep)

theorem Path.append {S : System σ α ε} {G : σ → α → Prop} {s s' s'' : σ} {p q : List (σ × α)}
    (h : S.Path G s p s') (h' : S.Path G s' q s'') : S.Path G s (p ++ q) s'' := by
  induction h with
  | nil => exact h'
  | cons hg hs _ ih => exact .cons hg hs (ih h')

theorem Path.forall {S : System σ α ε} {G : σ → α → Prop} {s s' : σ} {p : List (σ × α)}
    (h : S.Path G s p s') : ∀ x ∈ p, G x.1 x.2 := by
  induction h with
  | nil => exact List.forall_mem_nil _
  | cons hg _ _ ih => exact List.forall_mem_cons.mpr ⟨hg, ih⟩

theorem Path.mono {S : System σ α ε} {G G' : σ → α → Prop} (hG : ∀ s a, G s a → G' s a) {s s' : σ}
    {p : List (σ × α)} (h : S.Path G s p s') : S.Path G' s p s' := by
  induction h with
  | nil => exact .nil
  | cons hg hs _ ih => exact .cons (hG _ _ hg) hs ih

theorem exists_path_of_runWith_from {S : System σ α ε} {G : σ → α → Prop} {g : σ → α → Bool}
    (hg : ∀ s a, g s a = true → G s a) {as : List α} {s s' : σ} (h : S.runWith g s as = some s') :
    ∃ p, S.Path G s p s' ∧ p.map Prod.snd = as := by
  induction as generalizing s with
  | nil =>
    cases h
    exact ⟨[], .nil, rfl⟩
  | cons a as ih =>
    simp only [runWith] at h
    split at h
    · rename_i hga
      split at h
      · rename_i t ht
        obtain ⟨p, hp, rfl⟩ := ih h
        exact ⟨_, .cons (hg s a hga) ht hp, rfl⟩
      · contradiction
    · contradiction

/-- The steps of `S` that meet `G`, seen through `view`, are steps of a specification.  Those
without a label are not seen. -/
structure Simulation (S : System σ α ε) (G : σ → α → Prop) (t₀ : τ) (Step : τ → β → τ → Prop) where
  view : σ → τ
  label : σ → α → Option β
  init : view S.init = t₀
  step : ∀ {s s' : σ} {a : α}, S.Reach G s → G s a → S.step s a = .ok s' →
    Moves Step (view s) (label s a) (view s')

def Simulation.trace {S : System σ α ε} {G : σ → α → Prop} {t₀ : τ} {Step : τ → β → τ → Prop}
    (f : S.Simulation G t₀ Step) (p : List (σ × α)) : List β :=
  p.filterMap fun x => f.label x.1 x.2

theorem Simulation.runs_from {S : System σ α ε} {G : σ → α → Prop} {t₀ : τ}
    {Step : τ → β → τ → Prop} (f : S.Simulation G t₀ Step) {s s' : σ} {p : List (σ × α)}
    (hs : S.Reach G s) (h : S.Path G s p s') : Runs Step (f.view s) (f.trace p) (f.view s') := by
  induction h with
  | nil => exact .nil
  | @cons s t s' a p hg hstep _ ih =>
    have hmoves := f.step hs hg hstep
    have hrest := ih (.step hs hg hstep)
    cases hlabel : f.label s a with
    | none =>
      rw [hlabel] at hmoves
      have htrace : f.trace ((s, a) :: p) = f.trace p := by simp [trace, hlabel]
      rw [htrace, ← show f.view t = f.view s from hmoves]
      exact hrest
    | some b =>
      rw [hlabel] at hmoves
      have htrace : f.trace ((s, a) :: p) = b :: f.trace p := by simp [trace, hlabel]
      rw [htrace]
      exact .cons hmoves hrest

theorem Simulation.runs {S : System σ α ε} {G : σ → α → Prop} {t₀ : τ} {Step : τ → β → τ → Prop}
    (f : S.Simulation G t₀ Step) {s : σ} {p : List (σ × α)} (h : S.Path G S.init p s) :
    Runs Step t₀ (f.trace p) (f.view s) := by
  have hruns := f.runs_from .init h
  rwa [f.init] at hruns

/-- The steps of `S` that meet `G` and those of `T` that meet `H` are the same, the states of `T`
being those of `S` as `view` shows them.  A step that is refused is refused there too, for the same
reason. -/
structure Correspondence {δ : Type z} (S : System σ α ε) (G : σ → α → Prop) (T : System τ β δ)
    (H : τ → β → Prop) where
  view : σ → τ
  label : σ → α → β
  fault : ε → δ
  init : view S.init = T.init
  step : ∀ {s : σ} {a : α}, S.Reach G s → G s a →
    T.step (view s) (label s a) = ((S.step s a).map view).mapError fault
  guard : ∀ {s s' : σ} {a : α}, S.Reach G s → G s a → S.step s a = .ok s' → H (view s) (label s a)
  cover : ∀ {s : σ} {b : β}, S.Reach G s → H (view s) b → ∃ a, G s a ∧ label s a = b

theorem Correspondence.reach {δ : Type z} {S : System σ α ε} {G : σ → α → Prop} {T : System τ β δ}
    {H : τ → β → Prop} (f : S.Correspondence G T H) {s : σ} (h : S.Reach G s) :
    T.Reach H (f.view s) := by
  induction h with
  | init =>
    rw [f.init]
    exact .init
  | @step s s' a hr hg hs ih =>
    refine .step ih (f.guard hr hg hs) ?_
    rw [f.step hr hg, hs]
    rfl

theorem Correspondence.exists_reach {δ : Type z} {S : System σ α ε} {G : σ → α → Prop}
    {T : System τ β δ} {H : τ → β → Prop} (f : S.Correspondence G T H) {t : τ} (h : T.Reach H t) :
    ∃ s, S.Reach G s ∧ f.view s = t := by
  induction h with
  | init => exact ⟨S.init, .init, f.init⟩
  | @step t t' b _ hh ht ih =>
    obtain ⟨s, hs, rfl⟩ := ih
    obtain ⟨a, hg, rfl⟩ := f.cover hs hh
    rw [f.step hs hg] at ht
    cases hstep : S.step s a with
    | error e =>
      rw [hstep] at ht
      cases ht
    | ok s' =>
      rw [hstep] at ht
      exact ⟨s', .step hs hg hstep, Except.ok.inj ht⟩

theorem Correspondence.reach_iff {δ : Type z} {S : System σ α ε} {G : σ → α → Prop}
    {T : System τ β δ} {H : τ → β → Prop} (f : S.Correspondence G T H) {t : τ} :
    T.Reach H t ↔ ∃ s, S.Reach G s ∧ f.view s = t := by
  constructor
  · exact f.exists_reach
  · rintro ⟨s, hs, rfl⟩
    exact f.reach hs

end System

end ChattingServer.Lib
