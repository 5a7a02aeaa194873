import Mathlib.Algebra.Group.Nat.Even
import ChattingServer.Lib.Chunks

universe u

namespace ChattingServer.Lib

variable {α : Type u} (single : α → Prop)

inductive Whole : List α → Prop
  | nil : Whole []
  | single {a : α} {l : List α} : single a → Whole l → Whole (a :: l)
  | double {a b : α} {l : List α} : ¬ single a → ¬ single b → Whole l → Whole (a :: b :: l)

variable {single}

namespace Whole

theorem append {m r : List α} (hm : Whole single m) (hr : Whole single r) :
    Whole single (m ++ r) := by
  induction hm with
  | nil => exact hr
  | single ha _ ih => exact .single ha ih
  | double ha hb _ ih => exact .double ha hb ih

theorem append_single {m r : List α} {a : α} (ha : single a) (h : Whole single (m ++ a :: r)) :
    Whole single m ∧ Whole single r := by
  generalize hl : m ++ a :: r = l at h
  induction h generalizing m with
  | nil => simp at hl
  | single hb h ih =>
    cases m with
    | nil =>
      obtain ⟨rfl, rfl⟩ := List.cons.inj hl
      exact ⟨.nil, h⟩
    | cons c m =>
      rw [List.cons_append, List.cons.injEq] at hl
      obtain ⟨rfl, hl⟩ := hl
      exact (ih hl).imp_left (.single hb)
  | double hb hc h ih =>
    cases m with
    | nil =>
      obtain ⟨rfl, -⟩ := List.cons.inj hl
      exact absurd ha hb
    | cons c m =>
      rw [List.cons_append, List.cons.injEq] at hl
      obtain ⟨rfl, hl⟩ := hl
      cases m with
      | nil =>
        obtain ⟨rfl, -⟩ := List.cons.inj hl
        exact absurd ha hc
      | cons d m =>
        rw [List.cons_append, List.cons.injEq] at hl
        obtain ⟨rfl, hl⟩ := hl
        exact (ih hl).imp_left (.double hb hc)

variable [DecidablePred single]

variable (single) in
def halves (l : List α) : Nat := l.countP (¬ single ·)

theorem halves_append (m r : List α) : halves single (m ++ r) = halves single m + halves single r :=
  List.countP_append

theorem halves_cons_single {a : α} (h : single a) (l : List α) :
    halves single (a :: l) = halves single l :=
  List.countP_cons_of_neg (by simpa using h)

theorem halves_cons {a : α} (h : ¬ single a) (l : List α) :
    halves single (a :: l) = halves single l + 1 :=
  List.countP_cons_of_pos (by simpa using h)

theorem even_halves {l : List α} (h : Whole single l) : Even (halves single l) := by
  induction h with
  | nil => exact Even.zero
  | single ha _ ih => rwa [halves_cons_single ha]
  | double ha hb _ ih =>
    rw [halves_cons ha, halves_cons hb]
    rwa [Nat.even_add_one, Nat.even_add_one, not_not]

theorem split {m r : List α} (h : Whole single (m ++ r)) (hm : Even (halves single m)) :
    Whole single m ∧ Whole single r := by
  generalize hl : m ++ r = l at h
  induction h generalizing m with
  | nil =>
    obtain ⟨rfl, rfl⟩ := List.append_eq_nil_iff.mp hl
    exact ⟨.nil, .nil⟩
  | single ha h ih =>
    cases m with
    | nil =>
      obtain rfl : r = _ := hl
      exact ⟨.nil, .single ha h⟩
    | cons c m =>
      rw [List.cons_append, List.cons.injEq] at hl
      obtain ⟨rfl, hl⟩ := hl
      rw [halves_cons_single ha] at hm
      exact (ih hm hl).imp_left (.single ha)
  | double ha hb h ih =>
    cases m with
    | nil =>
      obtain rfl : r = _ := hl
      exact ⟨.nil, .double ha hb h⟩
    | cons c m =>
      rw [List.cons_append, List.cons.injEq] at hl
      obtain ⟨rfl, hl⟩ := hl
      rw [halves_cons ha] at hm
      cases m with
      | nil => exact absurd hm (by simp [halves])
      | cons d m =>
        rw [List.cons_append, List.cons.injEq] at hl
        obtain ⟨rfl, hl⟩ := hl
        rw [halves_cons hb, Nat.even_add_one, Nat.even_add_one, not_not] at hm
        exact (ih hm hl).imp_left (.double ha hb)

theorem take_iff {l : List α} (h : Whole single l) (n : Nat) :
    Whole single (l.take n) ↔ Even (halves single (l.take n)) := by
  refine ⟨even_halves, fun heven => ?_⟩
  rw [← List.take_append_drop n l] at h
  exact (h.split heven).1

theorem drop_of_take {l : List α} (h : Whole single l) {n : Nat}
    (hn : Whole single (l.take n)) : Whole single (l.drop n) := by
  rw [← List.take_append_drop n l] at h
  exact (h.split hn.even_halves).2

end Whole

theorem Chunks.forall_whole_iff [DecidablePred single] {n : Nat} {l : List α}
    {cs : List (List α)} (h : Chunks n l cs) (hl : Whole single l) :
    (∀ c ∈ cs, Whole single c) ↔ ∀ k, Even (Whole.halves single (l.take (k * n))) := by
  induction h with
  | nil => simp [Whole.halves]
  | @cons l cs _ _ ih =>
    rw [List.forall_mem_cons, hl.take_iff]
    constructor
    · rintro ⟨hfirst, hrest⟩ k
      cases k with
      | zero => simp [Whole.halves]
      | succ k =>
        have hdrop := (ih (hl.drop_of_take ((hl.take_iff n).mpr hfirst))).mp hrest k
        rw [Nat.succ_mul, Nat.add_comm, List.take_add, Whole.halves_append]
        exact hfirst.add hdrop
    · intro heven
      have hfirst : Even (Whole.halves single (l.take n)) := by simpa using heven 1
      refine ⟨hfirst, (ih (hl.drop_of_take ((hl.take_iff n).mpr hfirst))).mpr fun k => ?_⟩
      have hnext := heven (k + 1)
      rw [Nat.succ_mul, Nat.add_comm, List.take_add, Whole.halves_append] at hnext
      exact (Nat.even_add.mp hnext).mp hfirst

end ChattingServer.Lib
