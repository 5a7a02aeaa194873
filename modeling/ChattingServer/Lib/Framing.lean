import Mathlib.Data.List.GetD
import Mathlib.Algebra.Notation.Defs
import Mathlib.Tactic.ByContra

universe u

namespace ChattingServer.Lib.Framing

variable {β : Type u} [Zero β]

/-- `e` is spelled by the chunk `c` once `c` is continued by zeros for as long as needed. -/
def SpelledBy (e c : List β) : Prop := ∀ i (h : i < e.length), e[i] = c.getD i 0

def HeadNonzero (e : List β) : Prop := e.getD 0 0 ≠ 0

def padded (pad : Nat) (e : List β) : List β := e ++ List.replicate pad 0

theorem getD_padded (pad : Nat) (e : List β) (i : Nat) : (padded pad e).getD i 0 = e.getD i 0 := by
  simp only [padded, List.getD_eq_getElem?_getD, List.getElem?_append, List.getElem?_replicate]
  split
  · rfl
  · rename_i h
    rw [List.getElem?_eq_none (Nat.not_lt.mp h)]
    split <;> rfl

theorem SpelledBy.getD {e c : List β} (h : SpelledBy e c) {i : Nat} (hi : e.getD i 0 ≠ 0) :
    e.getD i 0 = c.getD i 0 := by
  by_cases hlt : i < e.length
  · rw [← h i hlt, List.getD_eq_getElem _ _ hlt]
  · exact absurd (List.getD_eq_default _ _ (Nat.not_lt.mp hlt)) hi

theorem not_spelledBy_shifted {e x c y : List β} {pad : Nat} (he : HeadNonzero e) (hx : x ≠ [])
    (hw : padded pad e = x ++ (c ++ y)) : ¬ SpelledBy e c := by
  intro h
  have shift : ∀ i, e.getD i 0 ≠ 0 → e.getD (x.length + i) 0 ≠ 0 := by
    intro i hi
    have hc := h.getD hi
    have hlt : i < c.length := by
      by_contra hge
      exact hi (hc.trans (List.getD_eq_default _ _ (Nat.not_lt.mp hge)))
    rw [← getD_padded pad e, hw, List.getD_append_right _ _ _ _ (Nat.le_add_right ..),
      Nat.add_sub_cancel_left, List.getD_append _ _ _ _ hlt, ← hc]
    exact hi
  have multiples : ∀ n, e.getD (n * x.length) 0 ≠ 0 := by
    intro n
    induction n with
    | zero =>
      rw [Nat.zero_mul]
      exact he
    | succ n ih =>
      rw [Nat.succ_mul, Nat.add_comm]
      exact shift _ ih
  have hpos : 0 < x.length := List.length_pos_iff.mpr hx
  exact multiples e.length (List.getD_eq_default _ _ (Nat.le_mul_of_pos_right _ hpos))

theorem not_spelledBy_of_excess {es cs : List (List β)} {pad : Nat} {x : List β}
    (he : ∀ e ∈ es, HeadNonzero e) (hx : x ≠ [])
    (hcat : x ++ cs.flatten = (es.map (padded pad)).flatten) : ¬ List.Forall₂ SpelledBy es cs := by
  intro h
  induction h generalizing x with
  | nil => exact hx (by simpa using hcat)
  | @cons e c es cs hc _ ih =>
    simp only [List.flatten_cons, List.map_cons, ← List.append_assoc] at hcat
    rcases List.append_eq_append_iff.mp hcat with ⟨y, hy, -⟩ | ⟨x', hx', hrest⟩
    · exact not_spelledBy_shifted (he e List.mem_cons_self) hx
        (by rw [hy, List.append_assoc]) hc
    · by_cases hnil : x' = []
      · subst hnil
        have hw : padded pad e = x ++ (c ++ []) := by simpa using hx'.symm
        exact not_spelledBy_shifted (he e List.mem_cons_self) hx hw hc
      · exact ih (fun e he' => he e (List.mem_cons_of_mem _ he')) hnil hrest.symm

theorem head_eq_zero_of_short {e c y : List β} {pad : Nat} (h : SpelledBy e c)
    (hw : padded pad e = c ++ y) : y.getD 0 0 = 0 := by
  have hget : y.getD 0 0 = e.getD c.length 0 := by
    rw [← getD_padded pad e, hw, List.getD_append_right _ _ _ _ (Nat.le_refl _), Nat.sub_self]
  by_contra hne
  rw [hget] at hne
  exact hne ((h.getD hne).trans (List.getD_eq_default _ _ (Nat.le_refl _)))

theorem eq_padded_of_spelledBy {es cs : List (List β)} {pad : Nat}
    (he : ∀ e ∈ es, HeadNonzero e) (hc : ∀ c ∈ cs, c ≠ [])
    (hcat : cs.flatten = (es.map (padded pad)).flatten) (h : List.Forall₂ SpelledBy es cs) :
    cs = es.map (padded pad) := by
  induction h with
  | nil => rfl
  | @cons e c es cs hec hcs ih =>
    simp only [List.flatten_cons, List.map_cons] at hcat ⊢
    have he' : ∀ e ∈ es, HeadNonzero e := fun e h => he e (List.mem_cons_of_mem _ h)
    have hc' : ∀ c ∈ cs, c ≠ [] := fun c h => hc c (List.mem_cons_of_mem _ h)
    rcases List.append_eq_append_iff.mp hcat with ⟨y, hy, hrest⟩ | ⟨x, hx, hrest⟩
    · by_cases hnil : y = []
      · subst hnil
        rw [List.append_nil] at hy
        rw [← hy, ih he' hc' (by simpa using hrest)]
      · -- the next chunk begins inside the zeros that end `e`
        have hzero := head_eq_zero_of_short hec hy
        cases hcs with
        | nil => exact absurd (List.append_eq_nil_iff.mp hrest.symm).1 hnil
        | @cons e' c' _ _ hec' _ =>
          have hc'ne := hc' c' List.mem_cons_self
          have hhead := hec'.getD (he' e' List.mem_cons_self)
          have hsame : c'.getD 0 0 = y.getD 0 0 := by
            have := congrArg (·.getD 0 0) hrest
            rwa [List.flatten_cons, List.getD_append _ _ _ _ (List.length_pos_iff.mpr hc'ne),
              List.getD_append _ _ _ _ (List.length_pos_iff.mpr hnil)] at this
          exact absurd (hhead.trans (hsame.trans hzero)) (he' e' List.mem_cons_self)
    · by_cases hnil : x = []
      · subst hnil
        rw [List.append_nil] at hx
        rw [hx, ih he' hc' (by simpa using hrest.symm)]
      · exact absurd hcs (not_spelledBy_of_excess he' hnil hrest.symm)

theorem spelledBy_iff_padded {e c : List β} {n : Nat} (h : e.length ≤ c.length + n) :
    SpelledBy e c ↔ e <+: padded n c := by
  have hget : ∀ i, i < e.length → (padded n c)[i]? = some (c.getD i 0) := by
    intro i hi
    rw [← getD_padded n c, List.getD_eq_getElem?_getD, List.getElem?_eq_getElem]
    · rfl
    · simp only [padded, List.length_append, List.length_replicate]
      omega
  rw [List.prefix_iff_getElem?]
  constructor
  · intro hs i hi
    rw [hget i hi, hs i hi]
  · intro hp i hi
    have := (hget i hi).symm.trans (hp i hi)
    exact (Option.some.inj this).symm

theorem spelledBy_take_iff {e : List β} {k pad : Nat} :
    SpelledBy e (padded pad (e.take k)) ↔ ∀ b ∈ e.drop k, b = 0 := by
  have hget : ∀ i, (padded pad (e.take k)).getD i 0 = if i < k then e.getD i 0 else 0 := by
    intro i
    rw [getD_padded, List.getD_eq_getElem?_getD, List.getElem?_take]
    split <;> simp [List.getD_eq_getElem?_getD]
  simp only [SpelledBy, hget]
  constructor
  · intro h b hb
    obtain ⟨i, hi, rfl⟩ := List.getElem_of_mem hb
    have hi' : k + i < e.length := by
      rw [List.length_drop] at hi
      omega
    rw [List.getElem_drop, h (k + i) hi', if_neg (by omega)]
  · intro h i hi
    split
    · rw [List.getD_eq_getElem _ _ hi]
    · rename_i hk
      have hlt : i - k < (e.drop k).length := by rw [List.length_drop]; omega
      have hzero := h _ (List.getElem_mem hlt)
      have hik : k + (i - k) = i := by omega
      simpa only [List.getElem_drop, hik] using hzero

theorem spelledBy_padded (e : List β) (pad : Nat) : SpelledBy e (padded pad e) := by
  intro i hi
  rw [getD_padded, List.getD_eq_getElem _ _ hi]

end ChattingServer.Lib.Framing
