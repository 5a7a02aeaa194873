import Mathlib.Data.List.Basic

/-! A writer with a limit: a value is written whole, or not at all when it has no room. -/

namespace ChattingServer.Lib.BoundedWriter

variable {α : Type*}

def write (limit : Nat) (out value : List α) : List α :=
  if out.length + value.length ≤ limit then out ++ value else out

def writeAll (limit : Nat) (out : List α) (values : List (List α)) : List α :=
  values.foldl (write limit) out

def accepted (limit : Nat) : List α → List (List α) → List Bool
  | _, [] => []
  | out, value :: values =>
    decide (out.length + value.length ≤ limit) :: accepted limit (write limit out value) values

inductive Aligned (limit : Nat) : Nat → List (List α) → Prop
  | nil {n : Nat} : Aligned limit n []
  | cons {n : Nat} {value : List α} {values : List (List α)} :
    value.length ∣ n → value.length ∣ limit → Aligned limit (n + value.length) values →
      Aligned limit n (value :: values)

theorem room_of_dvd {limit n size : Nat} (hn : size ∣ n) (hlimit : size ∣ limit)
    (h : n < limit) : n + size ≤ limit := by
  have hle : size ≤ limit - n := by
    apply Nat.le_of_dvd (Nat.sub_pos_of_lt h)
    exact Nat.dvd_sub hlimit hn
  omega

theorem Aligned.append {limit n : Nat} {vs ws : List (List α)} (hv : Aligned limit n vs)
    (hw : Aligned limit (n + vs.flatten.length) ws) : Aligned limit n (vs ++ ws) := by
  induction hv with
  | nil => simpa using hw
  | cons hn hlimit _ ih =>
    refine .cons hn hlimit (ih ?_)
    simpa only [List.flatten_cons, List.length_append, Nat.add_assoc] using hw

theorem aligned_of_forall {limit size n : Nat} {values : List (List α)} (hlimit : size ∣ limit)
    (hn : size ∣ n) (h : ∀ v ∈ values, v.length = size) : Aligned limit n values := by
  induction values generalizing n with
  | nil => exact .nil
  | cons v vs ih =>
    have hv : v.length = size := h v List.mem_cons_self
    refine .cons (hv ▸ hn) (hv ▸ hlimit) (ih ?_ fun w hw => h w (List.mem_cons_of_mem v hw))
    rw [hv]
    exact Nat.dvd_add hn (Nat.dvd_refl size)

theorem write_take {limit : Nat} {e value : List α} (hn : value.length ∣ e.length)
    (hlimit : value.length ∣ limit) :
    write limit (e.take limit) value = (e ++ value).take limit := by
  rcases Nat.lt_or_ge e.length limit with hlt | hge
  · have hroom : e.length + value.length ≤ limit := room_of_dvd hn hlimit hlt
    have hboth : (e ++ value).length ≤ limit := by rwa [List.length_append]
    rw [write, List.take_of_length_le (Nat.le_of_lt hlt), if_pos hroom,
      List.take_of_length_le hboth]
  · have hfull : (e.take limit).length = limit := by rw [List.length_take, Nat.min_eq_left hge]
    rw [List.take_append_of_le_length hge, write, hfull]
    split
    · rename_i hfit
      have hnil : value = [] := List.length_eq_zero_iff.mp (by omega)
      rw [hnil, List.append_nil]
    · rfl

theorem Aligned.writeAll_take {limit n : Nat} {values : List (List α)}
    (h : Aligned limit n values) {e : List α} (he : e.length = n) :
    writeAll limit (e.take limit) values = (e ++ values.flatten).take limit := by
  induction h generalizing e with
  | nil => simp [writeAll]
  | @cons n value values hn hlimit _ ih =>
    have hstep := write_take (he ▸ hn) hlimit
    have hrest := ih (e := e ++ value) (by rw [List.length_append, he])
    rw [List.flatten_cons, ← List.append_assoc, ← hrest, ← hstep]
    rfl

example : writeAll 3 [] [[1, 2], [3, 4], [5]] = [1, 2, 5] := by decide

theorem Aligned.refused {limit n : Nat} {values : List (List α)} (h : Aligned limit n values)
    (hpos : 0 < limit) {out : List α} (hout : limit ≤ out.length) :
    ∀ b ∈ accepted limit out values, b = false := by
  induction h with
  | nil => exact fun b hb => absurd hb List.not_mem_nil
  | @cons n value values _ hlimit _ ih =>
    have hsize : 0 < value.length := Nat.pos_of_dvd_of_pos hlimit hpos
    have hno : ¬ out.length + value.length ≤ limit := by omega
    intro b hb
    rw [accepted, write, if_neg hno] at hb
    cases hb with
    | head => exact decide_eq_false hno
    | tail _ hb => exact ih b hb

theorem Aligned.accepted_pairwise {limit n : Nat} {values : List (List α)}
    (h : Aligned limit n values) (hpos : 0 < limit) {out : List α}
    (hout : out.length = min limit n) :
    (accepted limit out values).Pairwise fun earlier later => later = true → earlier = true := by
  induction h generalizing out with
  | nil => exact .nil
  | @cons n value values hn hlimit rest ih =>
    rcases Nat.lt_or_ge n limit with hlt | hge
    · have hroom : n + value.length ≤ limit := room_of_dvd hn hlimit hlt
      have hfit : out.length + value.length ≤ limit := by omega
      rw [accepted, write, if_pos hfit, decide_eq_true hfit]
      refine .cons (fun _ _ _ => rfl) (ih ?_)
      rw [List.length_append]
      omega
    · have hfull : limit ≤ out.length := by omega
      have hsize : 0 < value.length := Nat.pos_of_dvd_of_pos hlimit hpos
      have hno : ¬ out.length + value.length ≤ limit := by omega
      rw [accepted, write, if_neg hno]
      refine .cons (fun b hb hlater => ?_) (ih ?_)
      · rw [rest.refused hpos hfull b hb] at hlater
        exact absurd hlater Bool.false_ne_true
      · omega

end ChattingServer.Lib.BoundedWriter
