import Mathlib.Logic.Basic

universe u v w x

namespace ChattingServer.Lib

/-- A labelled transition system.  A step that fails has no successor. -/
structure System (σ : Type u) (α : Type v) (ε : Type w) where
  init : σ
  step : σ → α → Except ε σ

namespace System

variable {σ : Type u} {α : Type v} {ε : Type w} {η : Type x}

/-- The states of the runs whose every step, taken in the state before it, meets `G`. -/
inductive Reach (S : System σ α ε) (G : σ → α → Prop) : σ → Prop
  | init : Reach S G S.init
  | step {s s' : σ} {a : α} : Reach S G s → G s a → S.step s a = .ok s' → Reach S G s'

abbrev Reachable (S : System σ α ε) : σ → Prop := S.Reach fun _ _ => True

/-- The induction of every run theorem: `P` holds at the start and one step keeps it. -/
theorem Reach.invariant {S : System σ α ε} {G : σ → α → Prop} {P : σ → Prop}
    (init : P S.init)
    (step : ∀ s a s', S.Reach G s → P s → G s a → S.step s a = .ok s' → P s')
    {s : σ} (h : S.Reach G s) : P s := by
  induction h with
  | init => exact init
  | step hr hg hs ih => exact step _ _ _ hr ih hg hs

theorem Reach.mono {S : System σ α ε} {G G' : σ → α → Prop}
    (hG : ∀ s a, G s a → G' s a) {s : σ} (h : S.Reach G s) : S.Reach G' s := by
  induction h with
  | init => exact .init
  | step _ hg hs ih => exact .step ih (hG _ _ hg) hs

theorem Reach.reachable {S : System σ α ε} {G : σ → α → Prop} {s : σ}
    (h : S.Reach G s) : S.Reachable s :=
  h.mono fun _ _ _ => trivial

/-- Runs a list of actions, testing `g` before each of them. -/
def runWith (S : System σ α ε) (g : σ → α → Bool) : σ → List α → Option σ
  | s, [] => some s
  | s, a :: as =>
    if g s a then
      match S.step s a with
      | .ok s' => S.runWith g s' as
      | .error _ => none
    else none

def run (S : System σ α ε) : σ → List α → Option σ := S.runWith fun _ _ => true

theorem run_cons {S : System σ α ε} {s s' : σ} {a : α} {as : List α} :
    S.run s (a :: as) = some s' ↔ ∃ t, S.step s a = .ok t ∧ S.run t as = some s' := by
  simp only [run, runWith, if_true]
  cases S.step s a with
  | ok t => simp
  | error e => simp

theorem Reach.of_runWith_from {S : System σ α ε} {G : σ → α → Prop} {g : σ → α → Bool}
    (hg : ∀ s a, g s a = true → G s a) {as : List α} {s s' : σ}
    (hs : S.Reach G s) (h : S.runWith g s as = some s') : S.Reach G s' := by
  induction as generalizing s with
  | nil =>
    cases h
    exact hs
  | cons a as ih =>
    simp only [runWith] at h
    split at h
    · rename_i hga
      split at h
      · rename_i t ht
        exact ih (.step hs (hg s a hga) ht) h
      · contradiction
    · contradiction

theorem Reach.of_runWith {S : System σ α ε} {G : σ → α → Prop} {g : σ → α → Bool}
    (hg : ∀ s a, g s a = true → G s a) {as : List α} {s : σ}
    (h : S.runWith g S.init as = some s) : S.Reach G s :=
  .of_runWith_from hg .init h

theorem exists_of_runWith {S : System σ α ε} {G : σ → α → Prop} {g : σ → α → Bool}
    (hg : ∀ s a, g s a = true → G s a) {p : σ → Bool} (as : List α)
    (h : (S.runWith g S.init as).any p = true) : ∃ s, S.Reach G s ∧ p s = true := by
  cases hs : S.runWith g S.init as with
  | none => simp [hs] at h
  | some s => exact ⟨s, .of_runWith hg hs, by simpa [hs] using h⟩

theorem exists_of_run {S : System σ α ε} {p : σ → Bool} (as : List α)
    (h : (S.run S.init as).any p = true) : ∃ s, S.Reachable s ∧ p s = true :=
  exists_of_runWith (fun _ _ _ => trivial) as h

theorem Reach.run_from {S : System σ α ε} {A : α → Prop} {as : List α} {s s' : σ}
    (hs : S.Reach (fun _ a => A a) s) (hA : ∀ a ∈ as, A a) (h : S.run s as = some s') :
    S.Reach (fun _ a => A a) s' := by
  induction as generalizing s with
  | nil =>
    cases h
    exact hs
  | cons a as ih =>
    simp only [run, runWith, if_true] at h
    split at h
    · rename_i t ht
      exact ih (.step hs (hA a List.mem_cons_self) ht)
        (fun b hb => hA b (List.mem_cons_of_mem _ hb)) h
    · contradiction

theorem exists_of_run_forall {S : System σ α ε} {A : α → Prop} {p : σ → Bool} (as : List α)
    (hA : ∀ a ∈ as, A a) (h : (S.run S.init as).any p = true) :
    ∃ s, S.Reach (fun _ a => A a) s ∧ p s = true := by
  cases hs : S.run S.init as with
  | none => simp [hs] at h
  | some s => exact ⟨s, Reach.init.run_from hA hs, by simpa [hs] using h⟩

/-- A run: the actions that were taken, each with the state it was taken in. -/
inductive Trace (S : System σ α ε) : List (σ × α) → σ → Prop
  | init : Trace S [] S.init
  | step {t : List (σ × α)} {s s' : σ} {a : α} :
    Trace S t s → S.step s a = .ok s' → Trace S (t ++ [(s, a)]) s'

/-- `P` holds in every state of a run, the last one included. -/
def Always (P : σ → Prop) (t : List (σ × α)) (s : σ) : Prop := (∀ x ∈ t, P x.1) ∧ P s

theorem Trace.reachable {S : System σ α ε} {t : List (σ × α)} {s : σ} (h : S.Trace t s) :
    S.Reachable s := by
  induction h with
  | init => exact .init
  | step _ hs ih => exact .step ih trivial hs

theorem always_concat {P : σ → Prop} {t : List (σ × α)} {s s' : σ} {a : α} :
    Always P (t ++ [(s, a)]) s' ↔ Always P t s ∧ P s' := by
  simp only [Always, List.forall_mem_append, List.forall_mem_singleton]

/-- Where `G` is what a step needs to keep `P`, all of a run has `P` exactly when all of its steps
meet `G`. -/
theorem Trace.always_iff {S : System σ α ε} {P : σ → Prop} {G : σ → α → Prop}
    (init : P S.init)
    (step : ∀ s a s', S.Reachable s → P s → S.step s a = .ok s' → (P s' ↔ G s a))
    {t : List (σ × α)} {s : σ} (h : S.Trace t s) :
    Always P t s ↔ ∀ x ∈ t, G x.1 x.2 := by
  induction h with
  | init => exact iff_of_true ⟨List.forall_mem_nil _, init⟩ (List.forall_mem_nil _)
  | @step t s s' a ht hs ih =>
    rw [always_concat, List.forall_mem_append, List.forall_mem_singleton, ← ih]
    exact and_congr_right fun hall => step s a s' ht.reachable hall.2 hs

theorem Trace.of_runWith_from {S : System σ α ε} {g : σ → α → Bool} {as : List α}
    {t : List (σ × α)} {s s' : σ} (ht : S.Trace t s) (hg : ∀ x ∈ t, g x.1 x.2 = true)
    (h : S.runWith g s as = some s') : ∃ t', S.Trace t' s' ∧ ∀ x ∈ t', g x.1 x.2 = true := by
  induction as generalizing s t with
  | nil =>
    cases h
    exact ⟨t, ht, hg⟩
  | cons a as ih =>
    simp only [runWith] at h
    split at h
    · rename_i hga
      split at h
      · rename_i u hu
        refine ih (ht.step hu) (List.forall_mem_append.mpr ⟨hg, ?_⟩) h
        exact List.forall_mem_singleton.mpr hga
      · contradiction
    · contradiction

theorem exists_trace_of_runWith {S : System σ α ε} {g : σ → α → Bool} {p : σ → Bool} (as : List α)
    (h : (S.runWith g S.init as).any p = true) :
    ∃ t s, S.Trace t s ∧ (∀ x ∈ t, g x.1 x.2 = true) ∧ p s = true := by
  cases hs : S.runWith g S.init as with
  | none => simp [hs] at h
  | some s =>
    obtain ⟨t, ht, hg⟩ := Trace.init.of_runWith_from (List.forall_mem_nil _) hs
    exact ⟨t, s, ht, hg, by simpa [hs] using h⟩

def withHistory (S : System σ α ε) (h₀ : η) (upd : η → σ → α → η) : System (σ × η) α ε where
  init := (S.init, h₀)
  step s a := (S.step s.1 a).map (·, upd s.2 s.1 a)

theorem withHistory_step {S : System σ α ε} {h₀ : η} {upd : η → σ → α → η}
    {s s' : σ × η} {a : α} :
    (S.withHistory h₀ upd).step s a = .ok s' ↔
      S.step s.1 a = .ok s'.1 ∧ s'.2 = upd s.2 s.1 a := by
  obtain ⟨t', h'⟩ := s'
  simp only [withHistory]
  cases S.step s.1 a with
  | error e => simp [Except.map]
  | ok t => simp [Except.map, eq_comm]

theorem exists_of_withHistory_step {S : System σ α ε} {h₀ : η} {upd : η → σ → α → η} {s : σ}
    {k : η} {x' : σ × η} {a : α} (h : (S.withHistory h₀ upd).step (s, k) a = .ok x') :
    ∃ s', S.step s a = .ok s' ∧ x' = (s', upd k s a) := by
  obtain ⟨s', k'⟩ := x'
  obtain ⟨hs, hk⟩ := withHistory_step.mp h
  exact ⟨s', hs, Prod.ext rfl hk⟩

theorem Reach.withHistory_fst {S : System σ α ε} {G : σ → α → Prop} {h₀ : η}
    {upd : η → σ → α → η} {s : σ × η}
    (h : (S.withHistory h₀ upd).Reach (fun s a => G s.1 a) s) : S.Reach G s.1 := by
  induction h with
  | init => exact .init
  | step _ hg hs ih => exact .step ih hg (withHistory_step.mp hs).1

theorem Reach.exists_history {S : System σ α ε} {G : σ → α → Prop} (h₀ : η)
    (upd : η → σ → α → η) {s : σ} (h : S.Reach G s) :
    ∃ k, (S.withHistory h₀ upd).Reach (fun s a => G s.1 a) (s, k) := by
  induction h with
  | init => exact ⟨h₀, .init⟩
  | @step s s' a _ hg hs ih =>
    obtain ⟨k, hk⟩ := ih
    exact ⟨upd k s a, .step hk hg (withHistory_step.mpr ⟨hs, rfl⟩)⟩

end System

end ChattingServer.Lib
