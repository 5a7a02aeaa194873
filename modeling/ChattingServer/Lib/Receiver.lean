import Mathlib.Data.List.Basic

universe u v

namespace ChattingServer.Lib

structure Receiver (ν : Type u) (π : Type v) where
  recv : ν → π → ν
  takes : ν → π → Prop

namespace Receiver

variable {ν : Type u} {π : Type v} {R : Receiver ν π}

inductive Plays (R : Receiver ν π) : ν → List π → ν → Prop
  | nil {v : ν} : R.Plays v [] v
  | cons {v w : ν} {p : π} {ps : List π} :
    R.takes v p → R.Plays (R.recv v p) ps w → R.Plays v (p :: ps) w

@[simp] theorem plays_nil_iff {v w : ν} : R.Plays v [] w ↔ v = w := by
  constructor
  · rintro ⟨⟩
    rfl
  · rintro rfl
    exact .nil

@[simp] theorem plays_cons_iff {v w : ν} {p : π} {ps : List π} :
    R.Plays v (p :: ps) w ↔ R.takes v p ∧ R.Plays (R.recv v p) ps w := by
  constructor
  · rintro (_ | ⟨hp, hps⟩)
    exact ⟨hp, hps⟩
  · rintro ⟨hp, hps⟩
    exact .cons hp hps

theorem plays_append_iff {v w : ν} {ps qs : List π} :
    R.Plays v (ps ++ qs) w ↔ ∃ x, R.Plays v ps x ∧ R.Plays x qs w := by
  induction ps generalizing v with
  | nil => simp
  | cons p ps ih => simp [ih, and_assoc]

theorem Plays.append {v w x : ν} {ps qs : List π} (hps : R.Plays v ps w) (hqs : R.Plays w qs x) :
    R.Plays v (ps ++ qs) x :=
  plays_append_iff.mpr ⟨w, hps, hqs⟩

theorem Plays.keeps {P : ν → Prop} (hP : ∀ {v p}, P v → P (R.recv v p)) {v w : ν} {ps : List π}
    (h : R.Plays v ps w) (hv : P v) : P w := by
  induction h with
  | nil => exact hv
  | cons _ _ ih => exact ih (hP hv)

theorem Plays.mono {R' : Receiver ν π} {v w : ν} {ps : List π} (h : R.Plays v ps w)
    (hrecv : R'.recv = R.recv) (htakes : ∀ {v p}, R.takes v p → R'.takes v p) :
    R'.Plays v ps w := by
  induction h with
  | nil => exact .nil
  | cons hp _ ih => exact .cons (htakes hp) (hrecv ▸ ih)

theorem plays_const {v : ν} {ps : List π} (hrecv : ∀ p ∈ ps, R.recv v p = v)
    (htakes : ∀ p ∈ ps, R.takes v p) : R.Plays v ps v := by
  induction ps with
  | nil => exact .nil
  | cons p ps ih =>
    refine .cons (htakes p List.mem_cons_self) ?_
    rw [hrecv p List.mem_cons_self]
    exact ih (fun q hq => hrecv q (List.mem_cons_of_mem _ hq))
      fun q hq => htakes q (List.mem_cons_of_mem _ hq)

end Receiver

end ChattingServer.Lib
