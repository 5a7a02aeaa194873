import ChattingServer.Lib.BoundedWriter
import ChattingServer.Lib.Except
import ChattingServer.Lib.LittleEndian

namespace ChattingServer.V11

open Lib

abbrev sockbufSize : Nat := 1024

abbrev Str := List UInt8

inductive StreamFault where
  /-- `memcpy_s` into `stream_` is asked for more than the array holds. -/
  | streamSize
  /-- `stream_` is read at an index past its last element. -/
  | outOfBounds
  deriving DecidableEq

structure Stream where
  offset : Nat
  readPtr : Nat
  stream : List UInt8
  length_stream : stream.length = sockbufSize
  offset_le : offset ≤ sockbufSize

namespace Stream

def init : Stream where
  offset := 0
  readPtr := 0
  stream := List.replicate sockbufSize 0
  length_stream := List.length_replicate
  offset_le := Nat.zero_le _

def size (s : Stream) : Nat := s.offset

def checkWriteBound (s : Stream) (len : Nat) : Bool := !decide (sockbufSize < s.offset + len)

/-- `Stream(data, size)` on bytes of which at least `size` are readable. -/
def set (data : List UInt8) (size : Nat) : Except StreamFault Stream :=
  if h : size ≤ sockbufSize ∧ size ≤ data.length then
    .ok {
      offset := size
      readPtr := 0
      stream := data.take size ++ List.replicate (sockbufSize - size) 0
      length_stream := by
        simp only [List.length_append, List.length_take, List.length_replicate]
        omega
      offset_le := h.1 }
  else .error .streamSize

theorem set_eq_error {data : List UInt8} {size : Nat} (h : sockbufSize < size) :
    set data size = .error .streamSize :=
  dif_neg fun hs => absurd hs.1 (Nat.not_le.mpr h)

/-- `operator<<` on a value given by its bytes in memory. -/
def write (s : Stream) (value : List UInt8) : Stream :=
  if h : s.checkWriteBound value.length = true then
    { s with
      offset := s.offset + value.length
      stream := s.stream.take s.offset ++ value ++ s.stream.drop (s.offset + value.length)
      length_stream := by
        have hs := s.length_stream
        simp only [checkWriteBound, Bool.not_eq_true', decide_eq_false_iff_not] at h
        simp only [List.length_append, List.length_take, List.length_drop]
        omega
      offset_le := by
        simp only [checkWriteBound, Bool.not_eq_true', decide_eq_false_iff_not] at h
        omega }
  else s

def writeU16 (s : Stream) (value : UInt16) : Stream := s.write (LittleEndian.toBytes 2 value.toNat)

def writeU32 (s : Stream) (value : UInt32) : Stream := s.write (LittleEndian.toBytes 4 value.toNat)

def writeStr (s : Stream) (value : Str) : Stream :=
  (value.foldl (fun s ch => s.write [ch]) s).write [0]

def at? (s : Stream) (i : Nat) : Except StreamFault UInt8 :=
  match s.stream[i]? with
  | some b => .ok b
  | none => .error .outOfBounds

def advance (s : Stream) (len : Nat) : Stream := { s with readPtr := s.readPtr + len }

def read (s : Stream) (len : Nat) : Except StreamFault (List UInt8 × Stream) :=
  if s.readPtr + len ≤ sockbufSize then
    .ok ((s.stream.drop s.readPtr).take len, s.advance len)
  else .error .outOfBounds

/-- `operator>>` on a fixed-width value; `retVal` keeps its value when the check refuses. -/
def readValue {α : Type} (s : Stream) (size : Nat) (ofNat : Nat → α) (retVal : α) :
    Except StreamFault (α × Stream) :=
  if s.checkWriteBound size then do
    let (bytes, s) ← s.read size
    return (ofNat (LittleEndian.ofBytes bytes), s)
  else
    return (retVal, s)

def readU16 (s : Stream) (retVal : UInt16) : Except StreamFault (UInt16 × Stream) :=
  s.readValue 2 UInt16.ofNat retVal

def readU32 (s : Stream) (retVal : UInt32) : Except StreamFault (UInt32 × Stream) :=
  s.readValue 4 UInt32.ofNat retVal

/-- The loop of `operator>>(str_t*)`, entered with its `length`.  Every round looks one byte
further, so the array ends before the fuel `sockbufSize + 1` does. -/
def scanNul (s : Stream) : Nat → Nat → Except StreamFault Nat
  | 0, _ => .error .outOfBounds
  | fuel + 1, length => do
    let ch ← s.at? (s.readPtr + (length + 1))
    if ch ≠ 0 ∧ s.readPtr + (length + 1) < sockbufSize then s.scanNul fuel (length + 1)
    else return length + 1

def readStr (s : Stream) : Except StreamFault (Str × Stream) := do
  let length ← s.scanNul (sockbufSize + 1) 0
  return ((s.stream.drop s.readPtr).take length, s.advance (length + 1))

def readMany {α : Type} (read : Stream → Except StreamFault (α × Stream)) :
    Nat → Stream → Except StreamFault (List α × Stream)
  | 0, s => return ([], s)
  | count + 1, s => do
    let (value, s) ← read s
    let (values, s) ← readMany read count s
    return (value :: values, s)

/-! The bytes not read yet, and what each operator does to them. -/

def rest (s : Stream) : List UInt8 := s.stream.drop s.readPtr

theorem exists_set (data : List UInt8) {size : Nat} (hmax : size ≤ sockbufSize)
    (hle : size ≤ data.length) :
    ∃ s, set data size = .ok s ∧ s.offset = size ∧
      s.rest = data.take size ++ List.replicate (sockbufSize - size) 0 :=
  ⟨_, dif_pos ⟨hmax, hle⟩, rfl, rfl⟩

theorem drop_readPtr (s : Stream) : s.stream.drop s.readPtr = s.rest := rfl

@[simp] theorem advance_zero (s : Stream) : s.advance 0 = s := rfl

@[simp] theorem advance_advance (s : Stream) (n m : Nat) :
    (s.advance n).advance m = s.advance (n + m) := by
  simp [advance, Nat.add_assoc]

@[simp] theorem rest_advance (s : Stream) (n : Nat) : (s.advance n).rest = s.rest.drop n := by
  simp [rest, advance]

theorem length_rest (s : Stream) : s.rest.length = sockbufSize - s.readPtr := by
  rw [rest, List.length_drop, s.length_stream]

/-- What `operator>>(str_t*)` can return: its scan starts at the second byte. -/
def Proper (v : Str) : Prop := v ≠ [] ∧ 0 ∉ v.tail

instance (v : Str) : Decidable (Proper v) := inferInstanceAs (Decidable (_ ∧ _))

def Received (s : Stream) : Prop := s.offset + 4 ≤ sockbufSize

theorem Received.advance {s : Stream} (h : s.Received) (n : Nat) : (s.advance n).Received := h

theorem readValue_ok_iff {α : Type} {s s' : Stream} {size : Nat} {ofNat : Nat → α} {retVal v : α}
    {n : Nat} (hs : s.offset + size ≤ sockbufSize) (hpos : 0 < size) (hn : n < 256 ^ size)
    (hv : ∀ m < 256 ^ size, ofNat m = v ↔ m = n) :
    s.readValue size ofNat retVal = .ok (v, s') ↔
      LittleEndian.toBytes size n <+: s.rest ∧ s' = s.advance size := by
  have hcheck : s.checkWriteBound size = true := by simp [checkWriteBound, hs]
  have hrest := s.length_rest
  simp only [readValue, hcheck, if_true, read, drop_readPtr]
  split
  · rename_i hle
    have hlen : (s.rest.take size).length = size := by rw [List.length_take]; omega
    have hlt : LittleEndian.ofBytes (s.rest.take size) < 256 ^ size := by
      have := LittleEndian.ofBytes_lt (s.rest.take size)
      rwa [hlen] at this
    have hpre : LittleEndian.toBytes size n <+: s.rest ↔
        s.rest.take size = LittleEndian.toBytes size n := by
      rw [List.prefix_iff_eq_take, LittleEndian.length_toBytes, eq_comm]
    rw [hpre, ← LittleEndian.ofBytes_eq_iff hlen hn, ← hv _ hlt]
    simp [eq_comm]
  · rename_i hle
    have hpre : ¬ LittleEndian.toBytes size n <+: s.rest := by
      intro h
      have := h.length_le
      rw [LittleEndian.length_toBytes] at this
      omega
    simp [hpre, bind, Except.bind]

theorem readU16_ok_iff {s s' : Stream} {retVal v : UInt16} (h : s.Received) :
    s.readU16 retVal = .ok (v, s') ↔
      LittleEndian.toBytes 2 v.toNat <+: s.rest ∧ s' = s.advance 2 := by
  apply readValue_ok_iff (by simp only [Received] at h; omega) (by decide) v.toNat_lt
  intro m hm
  rw [← UInt16.toNat_inj, UInt16.toNat_ofNat']
  omega

theorem readU32_ok_iff {s s' : Stream} {retVal v : UInt32} (h : s.Received) :
    s.readU32 retVal = .ok (v, s') ↔
      LittleEndian.toBytes 4 v.toNat <+: s.rest ∧ s' = s.advance 4 := by
  apply readValue_ok_iff h (by decide) v.toNat_lt
  intro m hm
  rw [← UInt32.toNat_inj, UInt32.toNat_ofNat']
  omega

theorem at?_ok_iff {s : Stream} {i : Nat} {b : UInt8} :
    s.at? i = .ok b ↔ s.stream[i]? = some b := by
  simp only [at?]
  split <;> simp_all

theorem scanNul_of_nul {s : Stream} {fuel length : Nat} {w t : List UInt8}
    (hw : s.rest.drop (length + 1) = w ++ 0 :: t) (h0 : 0 ∉ w) (hf : w.length < fuel) :
    s.scanNul fuel length = .ok (length + w.length + 1) := by
  induction w generalizing fuel length with
  | nil =>
    obtain ⟨fuel, rfl⟩ := Nat.exists_eq_succ_of_ne_zero (Nat.ne_zero_of_lt hf)
    have hat : s.at? (s.readPtr + (length + 1)) = .ok 0 := by
      rw [at?_ok_iff, ← List.getElem?_drop, ← rest, ← List.head?_drop, hw]
      rfl
    simp [scanNul, hat]
  | cons b w ih =>
    obtain ⟨fuel, rfl⟩ := Nat.exists_eq_succ_of_ne_zero (Nat.ne_zero_of_lt hf)
    have hb : b ≠ 0 := fun h => h0 (h ▸ List.mem_cons_self)
    have hget : s.stream[s.readPtr + (length + 1)]? = some b := by
      rw [← List.getElem?_drop, ← rest, ← List.head?_drop, hw]
      rfl
    have hlt : s.readPtr + (length + 1) < sockbufSize := by
      rw [← s.length_stream]
      exact (List.getElem?_eq_some_iff.mp hget).1
    have hnext : s.rest.drop (length + 1 + 1) = w ++ 0 :: t := by
      rw [← List.drop_drop, hw]
      rfl
    rw [scanNul, at?_ok_iff.mpr hget]
    simp only [ok_bind, ne_eq, hb, not_false_eq_true, hlt, and_self, if_true]
    rw [ih hnext (fun h => h0 (List.mem_cons_of_mem _ h)) (by simpa using hf), List.length_cons]
    congr 1
    omega

theorem nul_of_scanNul {s : Stream} {fuel length n : Nat} (h : s.scanNul fuel length = .ok n) :
    ∃ w t, s.rest.drop (length + 1) = w ++ 0 :: t ∧ 0 ∉ w ∧ n = length + w.length + 1 := by
  induction fuel generalizing length with
  | zero => simp [scanNul] at h
  | succ fuel ih =>
    rw [scanNul] at h
    cases hat : s.at? (s.readPtr + (length + 1)) with
    | error e => simp [hat, bind, Except.bind] at h
    | ok b =>
      have hget := at?_ok_iff.mp hat
      have hlt : s.readPtr + (length + 1) < sockbufSize := by
        rw [← s.length_stream]
        exact (List.getElem?_eq_some_iff.mp hget).1
      have hdrop : s.rest.drop (length + 1) = b :: s.rest.drop (length + 1 + 1) := by
        rw [← List.getElem?_drop, ← rest, ← List.head?_drop] at hget
        have := List.eq_cons_of_mem_head? hget
        rwa [List.tail_drop] at this
      simp only [hat, ok_bind, hlt, and_true] at h
      split at h
      · rename_i hb
        obtain ⟨w, t, hw, h0, rfl⟩ := ih h
        refine ⟨b :: w, t, by rw [hdrop, hw]; rfl, ?_, by simp; omega⟩
        rw [List.mem_cons, not_or]
        exact ⟨fun h => hb h.symm, h0⟩
      · rename_i hb
        refine ⟨[], s.rest.drop (length + 1 + 1), ?_, by simp, ?_⟩
        · rw [hdrop, not_not.mp hb]
          rfl
        · simpa [eq_comm] using h

theorem readStr_ok_iff {s s' : Stream} {v : Str} :
    s.readStr = .ok (v, s') ↔
      Proper v ∧ v ++ [0] <+: s.rest ∧ s' = s.advance (v.length + 1) := by
  constructor
  · intro h
    cases hscan : s.scanNul (sockbufSize + 1) 0 with
    | error e => simp [readStr, hscan, bind, Except.bind] at h
    | ok n =>
      obtain ⟨w, t, hw, h0, rfl⟩ := nul_of_scanNul hscan
      simp only [readStr, hscan, ok_bind, pure_eq_ok, Except.ok.injEq, Prod.mk.injEq,
        drop_readPtr] at h
      obtain ⟨rfl, rfl⟩ := h
      cases hr : s.rest with
      | nil => simp [hr] at hw
      | cons b r =>
        rw [hr, Nat.zero_add, List.drop_one, List.tail_cons] at hw
        subst hw
        have htake : List.take (0 + w.length + 1) (b :: (w ++ 0 :: t)) = b :: w := by simp
        rw [htake]
        exact ⟨⟨List.cons_ne_nil _ _, h0⟩, ⟨t, by simp⟩, by simp⟩
  · rintro ⟨⟨hne, h0⟩, ⟨t, ht⟩, rfl⟩
    cases v with
    | nil => contradiction
    | cons b w =>
      have hw : s.rest.drop (0 + 1) = w ++ 0 :: t := by simp [← ht]
      have hlen : w.length < sockbufSize + 1 := by
        have := s.length_rest
        rw [← ht] at this
        simp at this
        omega
      have htake : s.rest.take (w.length + 1) = b :: w := by simp [← ht]
      simp [readStr, scanNul_of_nul hw h0 hlen, drop_readPtr, htake]

theorem append_prefix_iff {a b l : List UInt8} :
    a ++ b <+: l ↔ a <+: l ∧ b <+: l.drop a.length := by
  constructor
  · rintro ⟨t, rfl⟩
    refine ⟨⟨b ++ t, by simp⟩, ⟨t, by simp⟩⟩
  · rintro ⟨⟨t, rfl⟩, hb⟩
    rw [List.drop_left] at hb
    exact (List.prefix_append_right_inj a).mpr hb

theorem append_prefix_rest_iff {s : Stream} {a b : List UInt8} :
    a ++ b <+: s.rest ↔ a <+: s.rest ∧ b <+: (s.advance a.length).rest := by
  rw [append_prefix_iff, rest_advance]

structure Reads {α : Type} (read : Stream → Except StreamFault (α × Stream)) (P : α → Prop)
    (bytes : α → List UInt8) : Prop where
  ok_iff : ∀ {s s' : Stream} {v : α}, s.Received →
    (read s = .ok (v, s') ↔ P v ∧ bytes v <+: s.rest ∧ s' = s.advance (bytes v).length)

theorem Reads.many {α : Type} {read : Stream → Except StreamFault (α × Stream)} {P : α → Prop}
    {bytes : α → List UInt8} (h : Reads read P bytes) {count : Nat} {s s' : Stream} {vs : List α}
    (hs : s.Received) :
    readMany read count s = .ok (vs, s') ↔
      vs.length = count ∧ (∀ v ∈ vs, P v) ∧ vs.flatMap bytes <+: s.rest ∧
        s' = s.advance (vs.flatMap bytes).length := by
  induction count generalizing s s' vs with
  | zero =>
    cases vs with
    | nil => simp [readMany, eq_comm]
    | cons v vs => simp [readMany]
  | succ count ih =>
    constructor
    · intro hr
      simp only [readMany, bind_eq_ok_iff, Prod.exists, pure_eq_ok, Except.ok.injEq,
        Prod.mk.injEq] at hr
      obtain ⟨v, s₁, hv, vs, s₂, hvs, rfl, rfl⟩ := hr
      obtain ⟨hP, hpre, rfl⟩ := (h.ok_iff hs).mp hv
      obtain ⟨rfl, hPs, hpres, rfl⟩ := (ih (hs.advance _)).mp hvs
      rw [rest_advance] at hpres
      refine ⟨rfl, ?_, append_prefix_iff.mpr ⟨hpre, hpres⟩, ?_⟩
      · intro w hw
        rcases List.mem_cons.mp hw with rfl | hw
        · exact hP
        · exact hPs w hw
      · simp
    · rintro ⟨hlen, hP, hpre, rfl⟩
      cases vs with
      | nil => simp at hlen
      | cons v vs =>
        obtain ⟨hv, hvs⟩ := append_prefix_iff.mp (by simpa using hpre)
        have h₁ : read s = .ok (v, s.advance (bytes v).length) :=
          (h.ok_iff hs).mpr ⟨hP v List.mem_cons_self, hv, rfl⟩
        have h₂ := (ih (hs.advance (bytes v).length)).mpr
          ⟨(by simpa using hlen : vs.length = count), fun w hw => hP w (List.mem_cons_of_mem _ hw),
            by simpa using hvs, rfl⟩
        simp [readMany, h₁, h₂]

/-! The writes.  On the bytes before `offset_`, `operator<<` is a writer with the array's limit. -/

def contents (s : Stream) : List UInt8 := s.stream.take s.offset

def accepts : Stream → List (List UInt8) → List Bool
  | _, [] => []
  | s, value :: values => s.checkWriteBound value.length :: (s.write value).accepts values

@[simp] theorem length_contents (s : Stream) : s.contents.length = s.offset := by
  rw [contents, List.length_take, s.length_stream, Nat.min_eq_left s.offset_le]

@[simp] theorem contents_init : init.contents = [] := rfl

theorem checkWriteBound_eq (s : Stream) (len : Nat) :
    s.checkWriteBound len = decide (s.contents.length + len ≤ sockbufSize) := by
  rw [checkWriteBound, length_contents, ← decide_not, decide_eq_decide, Nat.not_lt]

theorem contents_write (s : Stream) (value : List UInt8) :
    (s.write value).contents = BoundedWriter.write sockbufSize s.contents value := by
  have hiff : s.checkWriteBound value.length = true ↔
      s.contents.length + value.length ≤ sockbufSize := by
    rw [checkWriteBound_eq, decide_eq_true_iff]
  have hlen : (s.contents ++ value).length = s.offset + value.length := by
    rw [List.length_append, length_contents]
  rw [BoundedWriter.write, Stream.write]
  split
  · rename_i h
    rw [if_pos (hiff.mp h)]
    exact List.take_left' hlen
  · rename_i h
    rw [if_neg (mt hiff.mpr h)]

theorem contents_foldl_write (s : Stream) (values : List (List UInt8)) :
    (values.foldl write s).contents = BoundedWriter.writeAll sockbufSize s.contents values := by
  induction values generalizing s with
  | nil => rfl
  | cons value values ih =>
    rw [List.foldl_cons, ih, contents_write]
    rfl

theorem accepts_eq (s : Stream) (values : List (List UInt8)) :
    s.accepts values = BoundedWriter.accepted sockbufSize s.contents values := by
  induction values generalizing s with
  | nil => rfl
  | cons value values ih =>
    rw [accepts, ih, contents_write, checkWriteBound_eq]
    rfl

def Blank (s : Stream) : Prop :=
  s.stream.drop s.offset = List.replicate (sockbufSize - s.offset) 0

theorem Blank.write {s : Stream} (h : s.Blank) (value : List UInt8) : (s.write value).Blank := by
  have hlen : (s.contents ++ value).length = s.offset + value.length := by
    rw [List.length_append, length_contents]
  rw [Stream.write]
  split
  · calc
      (s.contents ++ value ++ s.stream.drop (s.offset + value.length)).drop
          (s.offset + value.length) = s.stream.drop (s.offset + value.length) :=
        List.drop_left' hlen
      _ = (s.stream.drop s.offset).drop value.length := List.drop_drop.symm
      _ = List.replicate (sockbufSize - (s.offset + value.length)) 0 := by
        rw [h, List.drop_replicate, Nat.sub_sub]
  · exact h

theorem Blank.foldl_write {s : Stream} (h : s.Blank) (values : List (List UInt8)) :
    (values.foldl Stream.write s).Blank := by
  induction values generalizing s with
  | nil => exact h
  | cons value values ih => exact ih (h.write value)

structure Holds (s : Stream) (e : List UInt8) : Prop where
  offset : s.offset = min sockbufSize e.length
  stream : s.stream = e.take sockbufSize ++ List.replicate (sockbufSize - e.length) 0

theorem holds_init : Holds init [] := ⟨rfl, rfl⟩

theorem holds_iff {s : Stream} {e : List UInt8} :
    s.Holds e ↔ s.contents = e.take sockbufSize ∧ s.Blank := by
  have hmin : (e.take sockbufSize).length = min sockbufSize e.length := List.length_take
  have hpad : sockbufSize - min sockbufSize e.length = sockbufSize - e.length := by omega
  constructor
  · intro h
    have hoff : (e.take sockbufSize).length = s.offset := by rw [hmin, h.offset]
    constructor
    · rw [contents, h.stream, List.take_left' hoff]
    · rw [Blank, h.stream, List.drop_left' hoff, h.offset, hpad]
  · rintro ⟨hcontents, hblank⟩
    have hoff : s.offset = min sockbufSize e.length := by
      rw [← hmin, ← hcontents, length_contents]
    refine ⟨hoff, ?_⟩
    rw [← List.take_append_drop s.offset s.stream, ← contents, hcontents, hblank, hoff, hpad]

theorem Holds.foldl_write {s : Stream} {e : List UInt8} (h : Holds s e)
    {values : List (List UInt8)} (ha : BoundedWriter.Aligned sockbufSize e.length values) :
    Holds (values.foldl Stream.write s) (e ++ values.flatten) := by
  obtain ⟨hcontents, hblank⟩ := holds_iff.mp h
  refine holds_iff.mpr ⟨?_, hblank.foldl_write values⟩
  rw [contents_foldl_write, hcontents, ha.writeAll_take rfl]

def strWrites (value : Str) : List (List UInt8) := value.map (fun ch => [ch]) ++ [[0]]

theorem writeStr_eq (s : Stream) (value : Str) :
    s.writeStr value = (strWrites value).foldl write s := by
  rw [writeStr, strWrites, List.foldl_append, List.foldl_map]
  rfl

@[simp] theorem flatten_strWrites (value : Str) : (strWrites value).flatten = value ++ [0] := by
  rw [strWrites, List.flatten_append, ← List.flatMap_def, List.flatMap_singleton']
  rfl

theorem length_of_mem_strWrites {value : Str} {v : List UInt8} (h : v ∈ strWrites value) :
    v.length = 1 := by
  simp only [strWrites, List.mem_append, List.mem_map, List.mem_singleton] at h
  rcases h with ⟨ch, -, rfl⟩ | rfl <;> rfl

end Stream

end ChattingServer.V11
