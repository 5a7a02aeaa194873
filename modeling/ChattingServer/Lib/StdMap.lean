import Mathlib.Data.List.Sort
import Mathlib.Data.UInt

universe u v w

namespace ChattingServer.Lib

instance linearOrderUInt16 : LinearOrder UInt16 where
  le_refl := UInt16.le_refl
  le_trans _ _ _ := UInt16.le_trans
  le_antisymm _ _ := UInt16.le_antisymm
  le_total := UInt16.le_total
  lt_iff_le_not_ge _ _ := by simp only [UInt16.lt_iff_toNat_lt, UInt16.le_iff_toNat_le]; omega
  toDecidableLE := inferInstance

instance linearOrderUInt32 : LinearOrder UInt32 where
  le_refl := UInt32.le_refl
  le_trans _ _ _ := UInt32.le_trans
  le_antisymm _ _ := UInt32.le_antisymm
  le_total := UInt32.le_total
  lt_iff_le_not_ge _ _ := by simp only [UInt32.lt_iff_toNat_lt, UInt32.le_iff_toNat_le]; omega
  toDecidableLE := inferInstance

structure StdSet (κ : Type u) [LinearOrder κ] where
  elems : List κ
  sorted : elems.Pairwise (· < ·)

namespace StdSet

variable {κ : Type u} [LinearOrder κ]

def empty : StdSet κ := ⟨[], .nil⟩

instance : Inhabited (StdSet κ) := ⟨empty⟩

instance : Membership κ (StdSet κ) := ⟨fun s k => k ∈ s.elems⟩

instance (k : κ) (s : StdSet κ) : Decidable (k ∈ s) := inferInstanceAs (Decidable (k ∈ s.elems))

theorem mem_def {k : κ} {s : StdSet κ} : k ∈ s ↔ k ∈ s.elems := Iff.rfl

def insertElem (k : κ) : List κ → List κ
  | [] => [k]
  | j :: l => if k < j then k :: j :: l else if k = j then j :: l else j :: insertElem k l

theorem mem_insertElem {k j : κ} {l : List κ} : j ∈ insertElem k l ↔ j = k ∨ j ∈ l := by
  induction l with
  | nil => simp [insertElem]
  | cons i l ih =>
    simp only [insertElem]
    split
    · simp
    · split
      · rename_i h
        simp [h]
      · simp only [List.mem_cons, ih]
        tauto

theorem insertElem_sorted {k : κ} {l : List κ} (h : l.Pairwise (· < ·)) :
    (insertElem k l).Pairwise (· < ·) := by
  induction l with
  | nil => simp [insertElem]
  | cons j l ih =>
    obtain ⟨hj, hl⟩ := List.pairwise_cons.mp h
    simp only [insertElem]
    split
    · rename_i hk
      refine List.pairwise_cons.mpr ⟨?_, h⟩
      intro i hi
      rcases List.mem_cons.mp hi with rfl | hi
      · exact hk
      · exact hk.trans (hj i hi)
    · split
      · exact h
      · rename_i hlt hne
        refine List.pairwise_cons.mpr ⟨?_, ih hl⟩
        intro i hi
        rcases mem_insertElem.mp hi with rfl | hi
        · exact lt_of_le_of_ne (not_lt.mp hlt) (Ne.symm hne)
        · exact hj i hi

def insert (s : StdSet κ) (k : κ) : StdSet κ := ⟨insertElem k s.elems, insertElem_sorted s.sorted⟩

def erase (s : StdSet κ) (k : κ) : StdSet κ :=
  ⟨s.elems.filter (· ≠ k), s.sorted.filter _⟩

@[simp] theorem not_mem_empty (k : κ) : k ∉ (empty : StdSet κ) := by
  simp [mem_def, empty]

@[simp] theorem mem_insert {s : StdSet κ} {k j : κ} : j ∈ s.insert k ↔ j = k ∨ j ∈ s :=
  mem_insertElem

@[simp] theorem mem_erase {s : StdSet κ} {k j : κ} : j ∈ s.erase k ↔ j ∈ s ∧ j ≠ k := by
  simp [mem_def, erase]

theorem ext {s t : StdSet κ} (h : ∀ k, k ∈ s ↔ k ∈ t) : s = t := by
  obtain ⟨elems, hs⟩ := s
  obtain ⟨elems', ht⟩ := t
  obtain rfl : elems = elems' := hs.eq_of_mem_iff ht h
  rfl

theorem insert_comm (s : StdSet κ) (j k : κ) : (s.insert j).insert k = (s.insert k).insert j :=
  ext fun i => by simp only [mem_insert, or_left_comm]

theorem nodup (s : StdSet κ) : s.elems.Nodup := s.sorted.imp fun h => h.ne

end StdSet

/-- An ordered map: its entries in ascending order of their keys, each key once. -/
structure StdMap (κ : Type u) (α : Type v) [LinearOrder κ] where
  entries : List (κ × α)
  sorted : entries.Pairwise (·.1 < ·.1)

namespace StdMap

variable {κ : Type u} {α : Type v} [LinearOrder κ]

def empty : StdMap κ α := ⟨[], .nil⟩

instance : Inhabited (StdMap κ α) := ⟨empty⟩

def findEntry (k : κ) : List (κ × α) → Option α
  | [] => none
  | (j, v) :: l => if j = k then some v else findEntry k l

def find (m : StdMap κ α) (k : κ) : Option α := findEntry k m.entries

def values (m : StdMap κ α) : List α := m.entries.map Prod.snd

def size (m : StdMap κ α) : Nat := m.entries.length

def setEntry (k : κ) (v : α) : List (κ × α) → List (κ × α)
  | [] => [(k, v)]
  | (j, w) :: l =>
    if k < j then (k, v) :: (j, w) :: l
    else if k = j then (k, v) :: l
    else (j, w) :: setEntry k v l

theorem mem_setEntry {k j : κ} {v w : α} {l : List (κ × α)} (h : (j, w) ∈ setEntry k v l) :
    (j = k ∧ w = v) ∨ (j, w) ∈ l := by
  induction l with
  | nil => simpa [setEntry] using h
  | cons e l ih =>
    obtain ⟨i, x⟩ := e
    simp only [setEntry] at h
    split at h
    · rcases List.mem_cons.mp h with h | h
      · exact .inl (by simpa using h)
      · exact .inr h
    · split at h
      · rcases List.mem_cons.mp h with h | h
        · exact .inl (by simpa using h)
        · exact .inr (List.mem_cons_of_mem _ h)
      · rcases List.mem_cons.mp h with h | h
        · exact .inr (h ▸ List.mem_cons_self)
        · exact (ih h).imp_right (List.mem_cons_of_mem _)

theorem setEntry_sorted {k : κ} {v : α} {l : List (κ × α)} (h : l.Pairwise (·.1 < ·.1)) :
    (setEntry k v l).Pairwise (·.1 < ·.1) := by
  induction l with
  | nil => simp [setEntry]
  | cons e l ih =>
    obtain ⟨i, x⟩ := e
    obtain ⟨hi, hl⟩ := List.pairwise_cons.mp h
    simp only [setEntry]
    split
    · rename_i hk
      refine List.pairwise_cons.mpr ⟨?_, h⟩
      intro e he
      rcases List.mem_cons.mp he with rfl | he
      · exact hk
      · exact hk.trans (hi e he)
    · split
      · rename_i hk
        subst hk
        exact List.pairwise_cons.mpr ⟨hi, hl⟩
      · rename_i hlt hne
        refine List.pairwise_cons.mpr ⟨?_, ih hl⟩
        rintro ⟨j, w⟩ he
        rcases mem_setEntry he with ⟨rfl, rfl⟩ | he
        · exact lt_of_le_of_ne (not_lt.mp hlt) (Ne.symm hne)
        · exact hi _ he

def set (m : StdMap κ α) (k : κ) (v : α) : StdMap κ α :=
  ⟨setEntry k v m.entries, setEntry_sorted m.sorted⟩

/-- `std::map::insert`: an entry already there under the key stays. -/
def insert (m : StdMap κ α) (k : κ) (v : α) : StdMap κ α :=
  match m.find k with
  | some _ => m
  | none => m.set k v

theorem length_le_setEntry (k : κ) (v : α) (l : List (κ × α)) :
    l.length ≤ (setEntry k v l).length := by
  induction l with
  | nil => exact Nat.zero_le _
  | cons e l ih =>
    obtain ⟨j, w⟩ := e
    simp only [setEntry]
    split
    · exact Nat.le_succ _
    · split
      · exact Nat.le_refl _
      · exact Nat.succ_le_succ ih

theorem size_le_insert (m : StdMap κ α) (k : κ) (v : α) : m.size ≤ (m.insert k v).size := by
  unfold insert
  split
  · exact Nat.le_refl _
  · exact length_le_setEntry k v m.entries

def erase (m : StdMap κ α) (k : κ) : StdMap κ α :=
  ⟨m.entries.filter (·.1 ≠ k), m.sorted.filter _⟩

@[simp] theorem find_empty (k : κ) : (empty : StdMap κ α).find k = none := rfl

theorem findEntry_setEntry {k j : κ} {v : α} {l : List (κ × α)} (h : l.Pairwise (·.1 < ·.1)) :
    findEntry j (setEntry k v l) = if k = j then some v else findEntry j l := by
  induction l with
  | nil => simp [setEntry, findEntry]
  | cons e l ih =>
    obtain ⟨i, x⟩ := e
    simp only [setEntry]
    split
    · simp [findEntry]
    · split
      · rename_i hk
        subst hk
        simp only [findEntry]
        split <;> simp_all
      · rename_i hne
        simp only [findEntry, ih (List.pairwise_cons.mp h).2]
        split
        · rename_i hj
          rw [if_neg (hj ▸ hne)]
        · rfl

@[simp] theorem find_set (m : StdMap κ α) (k j : κ) (v : α) :
    (m.set k v).find j = if k = j then some v else m.find j :=
  findEntry_setEntry m.sorted

theorem find_insert_of_none {m : StdMap κ α} {k : κ} (h : m.find k = none) (v : α) (j : κ) :
    (m.insert k v).find j = if k = j then some v else m.find j := by
  simp [insert, h]

theorem insert_of_some {m : StdMap κ α} {k : κ} {w : α} (h : m.find k = some w) (v : α) :
    m.insert k v = m := by
  simp [insert, h]

theorem find_insert_of_some {m : StdMap κ α} {k : κ} {v : α} (h : m.find k = some v) (j : κ)
    (w : α) : (m.insert j w).find k = some v := by
  cases hj : m.find j with
  | none =>
    rw [find_insert_of_none hj, if_neg, h]
    rintro rfl
    rw [h] at hj
    contradiction
  | some _ => rwa [insert_of_some hj]

theorem find_of_find_insert {m : StdMap κ α} {j k : κ} {v w : α}
    (h : (m.insert j w).find k = some v) :
    m.find k = some v ∨ v = w ∧ k = j ∧ m.find j = none := by
  cases hj : m.find j with
  | none =>
    rw [find_insert_of_none hj] at h
    split at h
    · rename_i hk
      exact .inr ⟨(Option.some.inj h).symm, hk.symm, rfl⟩
    · exact .inl h
  | some _ =>
    rw [insert_of_some hj] at h
    exact .inl h

theorem exists_find_insert_iff {m : StdMap κ α} {j : κ} (h : m.find j = none) {v w : α} :
    (∃ k, (m.insert j v).find k = some w) ↔ w = v ∨ ∃ k, m.find k = some w := by
  constructor
  · rintro ⟨k, hk⟩
    rcases find_of_find_insert hk with hk | ⟨rfl, -⟩
    · exact .inr ⟨k, hk⟩
    · exact .inl rfl
  · rintro (rfl | ⟨k, hk⟩)
    · exact ⟨j, by simp [find_insert_of_none h]⟩
    · exact ⟨k, find_insert_of_some hk ..⟩

theorem length_setEntry {k : κ} {l : List (κ × α)} (h : findEntry k l = none) (v : α) :
    (setEntry k v l).length = l.length + 1 := by
  induction l with
  | nil => rfl
  | cons e l ih =>
    obtain ⟨i, x⟩ := e
    simp only [findEntry] at h
    split at h
    · contradiction
    · rename_i hne
      simp only [setEntry]
      split
      · rfl
      · rw [if_neg (Ne.symm hne), List.length_cons, ih h, List.length_cons]

theorem size_insert_of_none {m : StdMap κ α} {k : κ} (h : m.find k = none) (v : α) :
    (m.insert k v).size = m.size + 1 := by
  rw [insert, h]
  exact length_setEntry h v

@[simp] theorem find_erase (m : StdMap κ α) (k j : κ) :
    (m.erase k).find j = if k = j then none else m.find j := by
  simp only [find, erase]
  induction m.entries with
  | nil => simp [findEntry]
  | cons e l ih =>
    obtain ⟨i, x⟩ := e
    by_cases hi : i = k
    · subst hi
      simp only [findEntry]
      split <;> simp_all
    · simp only [findEntry, hi, List.filter_cons, ne_eq, not_false_eq_true, decide_true, if_true,
        ih]
      split
      · rename_i hj
        rw [if_neg (hj ▸ Ne.symm hi)]
      · rfl

theorem mem_entries_iff {m : StdMap κ α} {k : κ} {v : α} :
    (k, v) ∈ m.entries ↔ m.find k = some v := by
  have aux : ∀ l : List (κ × α), l.Pairwise (·.1 < ·.1) →
      ((k, v) ∈ l ↔ findEntry k l = some v) := by
    intro l hl
    induction l with
    | nil => simp [findEntry]
    | cons e l ih =>
      obtain ⟨i, x⟩ := e
      obtain ⟨hi, hl⟩ := List.pairwise_cons.mp hl
      simp only [findEntry, List.mem_cons, Prod.mk.injEq, ih hl]
      split
      · rename_i hk
        subst hk
        have hnot : findEntry i l ≠ some v := by
          intro h
          exact lt_irrefl i (hi (i, v) ((ih hl).mpr h))
        simp [hnot, eq_comm]
      · rename_i hk
        simp [Ne.symm hk]
  exact aux m.entries m.sorted

theorem mem_values_iff {m : StdMap κ α} {v : α} : v ∈ m.values ↔ ∃ k, m.find k = some v := by
  simp only [values, List.mem_map, Prod.exists, mem_entries_iff, exists_eq_right]

theorem entries_set {m : StdMap κ α} {k : κ} {v : α} (h : m.find k = some v) :
    ∃ l₁ l₂, m.entries = l₁ ++ (k, v) :: l₂ ∧ ∀ w, (m.set k w).entries = l₁ ++ (k, w) :: l₂ := by
  obtain ⟨l₁, l₂, heq⟩ := List.append_of_mem (mem_entries_iff.mpr h)
  have hlt : ∀ e ∈ l₁, e.1 < k := fun e he => by
    have hsorted := m.sorted
    rw [heq] at hsorted
    exact (List.pairwise_append.mp hsorted).2.2 e he _ List.mem_cons_self
  refine ⟨l₁, l₂, heq, fun w => ?_⟩
  simp only [set, heq]
  clear heq
  induction l₁ with
  | nil => simp [setEntry]
  | cons e l₁ ih =>
    have he := hlt e List.mem_cons_self
    simp only [List.cons_append, setEntry]
    rw [if_neg (not_lt_of_gt he), if_neg (ne_of_gt he),
      ih fun d hd => hlt d (List.mem_cons_of_mem _ hd)]

theorem values_nodup {m : StdMap κ α}
    (h : ∀ k j v, m.find k = some v → m.find j = some v → k = j) : m.values.Nodup := by
  refine List.pairwise_map.mpr (m.sorted.imp_of_mem ?_)
  rintro ⟨k, v⟩ ⟨j, w⟩ hk hj hlt heq
  obtain rfl : v = w := heq
  exact hlt.ne (h k j v (mem_entries_iff.mp hk) (mem_entries_iff.mp hj))

def modify (m : StdMap κ α) (k : κ) (f : α → α) : StdMap κ α :=
  match m.find k with
  | some v => m.set k (f v)
  | none => m

@[simp] theorem find_modify (m : StdMap κ α) (k j : κ) (f : α → α) :
    (m.modify k f).find j = if k = j then (m.find k).map f else m.find j := by
  simp only [modify]
  split
  · rename_i v h
    simp [h]
  · rename_i h
    split
    · rename_i hk
      rw [← hk, h]
      rfl
    · rfl

def mapValues {β : Type w} (f : α → β) (m : StdMap κ α) : StdMap κ β :=
  ⟨m.entries.map fun e => (e.1, f e.2), List.pairwise_map.mpr m.sorted⟩

@[simp] theorem find_mapValues {β : Type w} (f : α → β) (m : StdMap κ α) (k : κ) :
    (m.mapValues f).find k = (m.find k).map f := by
  simp only [find, mapValues]
  induction m.entries with
  | nil => rfl
  | cons e l ih =>
    simp only [List.map_cons, findEntry, ih]
    split <;> rfl

theorem mapValues_set {β : Type w} (f : α → β) (m : StdMap κ α) (k : κ) (v : α) :
    (m.set k v).mapValues f = (m.mapValues f).set k (f v) := by
  simp only [set, mapValues, mk.injEq]
  induction m.entries with
  | nil => rfl
  | cons e l ih =>
    simp only [setEntry, List.map_cons]
    split
    · rfl
    · split
      · rfl
      · rw [List.map_cons, ih]

theorem mapValues_modify {β : Type w} {f : α → β} {g : α → α} {h : β → β}
    (hcomm : ∀ v, f (g v) = h (f v)) (m : StdMap κ α) (k : κ) :
    (m.modify k g).mapValues f = (m.mapValues f).modify k h := by
  simp only [modify, find_mapValues]
  cases m.find k with
  | none => rfl
  | some v => simp only [Option.map_some, mapValues_set, hcomm]

end StdMap

end ChattingServer.Lib
