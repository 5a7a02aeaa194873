import ChattingServer.Lib.Istream
import ChattingServer.Lib.Loop
import ChattingServer.V10.Server.UserInfo

namespace ChattingServer.V10.StressServer

open Lib

def cr : UInt8 := 13

def lf : UInt8 := 10

structure Reading where
  input : Istream UInt8
  ss : Bytes
  items : List Bytes

def Reading.body (r : Reading) : Turn Reading :=
  if r.input.good then
    let (c, input) := r.input.get
    -- `char c = in.get()` has -1 for the end of the text
    let c := c.getD 0xFF
    if c = cr ∨ c = lf then
      if input.eof then .done { r with input }
      else
        let (next, input) := input.peek
        let input := if next = some lf then input.get.2 else input
        .again ⟨input, [], r.items ++ [r.ss]⟩
    else .again { r with input, ss := r.ss ++ [c] }
  else .done r

/-- `none` stands for a loop that has not ended after a turn for each character and two more. -/
def readCsv (text : Bytes) : Option (List Bytes) :=
  (Turn.iterate Reading.body (text.length + 2) ⟨.new text, [], []⟩).map (·.items)

def endedLines : Bool → Bytes → Bytes → List Bytes
  | _, _, [] => []
  | skip, ss, c :: rest =>
    if c = cr ∨ c = lf then
      if skip ∧ c = lf then endedLines false ss rest else ss :: endedLines true [] rest
    else endedLines false (ss ++ [c]) rest

theorem endedLines_skip {d : UInt8} (h : d ≠ lf) (ss rest : Bytes) :
    endedLines true ss (d :: rest) = endedLines false ss (d :: rest) := by
  simp [endedLines, h]

inductive Reading.At (items : List Bytes) : Reading → Prop
  | rest (ss text : Bytes) (read : List Bytes) (h : read ++ endedLines false ss text = items) :
    Reading.At items ⟨.new text, ss, read⟩
  | ended (rest : Bytes) (failbit : Bool) (ss : Bytes) :
    Reading.At items ⟨⟨rest, true, failbit⟩, ss, items⟩

def Reading.left (r : Reading) : Nat := if r.input.good then r.input.rest.length + 1 else 0

@[simp] theorem Reading.left_new (text ss : Bytes) (items : List Bytes) :
    Reading.left ⟨.new text, ss, items⟩ = text.length + 1 :=
  rfl

@[simp] theorem Reading.left_ended (rest : Bytes) (failbit : Bool) (ss : Bytes)
    (items : List Bytes) : Reading.left ⟨⟨rest, true, failbit⟩, ss, items⟩ = 0 :=
  rfl

theorem Reading.At.turn {items : List Bytes} {r : Reading} (h : Reading.At items r) :
    (∃ r', r.body = .again r' ∧ Reading.At items r' ∧ r'.left < r.left) ∨
      ∃ r', r.body = .done r' ∧ r'.items = items := by
  cases h with
  | ended rest failbit ss => exact .inr ⟨_, rfl, rfl⟩
  | rest ss text read h =>
    left
    cases text with
    | nil =>
      rw [endedLines, List.append_nil] at h
      subst h
      exact ⟨⟨⟨[], true, true⟩, ss ++ [0xFF], read⟩, rfl, .ended .., by simp⟩
    | cons c rest =>
      by_cases hc : c = cr ∨ c = lf
      · simp only [endedLines, if_pos hc, Bool.false_eq_true, false_and, if_false] at h
        cases rest with
        | nil =>
          rw [endedLines] at h
          subst h
          refine ⟨⟨⟨[], true, false⟩, [], read ++ [ss]⟩, ?_, .ended .., by simp⟩
          simp [Reading.body, hc]
        | cons d rest =>
          by_cases hd : d = lf
          · subst hd
            refine ⟨⟨.new rest, [], read ++ [ss]⟩, ?_, .rest _ _ _ ?_, by simp⟩
            · simp [Reading.body, hc]
            · simpa [endedLines] using h
          · refine ⟨⟨.new (d :: rest), [], read ++ [ss]⟩, ?_, .rest _ _ _ ?_, by simp⟩
            · simp [Reading.body, hc, hd]
            · simpa [endedLines_skip hd] using h
      · refine ⟨⟨.new rest, ss ++ [c], read⟩, ?_, .rest _ _ _ ?_, by simp⟩
        · simp [Reading.body, hc]
        · simpa [endedLines, hc] using h

theorem readCsv_eq (text : Bytes) : readCsv text = some (endedLines false [] text) := by
  have hstart : Reading.At (endedLines false [] text) ⟨.new text, [], []⟩ := .rest _ _ _ rfl
  obtain ⟨r, hloop, hitems⟩ := Turn.exists_iterate (fun _ => Reading.At.turn) hstart
    (Nat.lt_succ_self (text.length + 1))
  rw [readCsv, hloop, Option.map_some, hitems]

inductive LineEnding
  | lf
  | crlf
  deriving DecidableEq

def LineEnding.bytes : LineEnding → Bytes
  | .lf => [StressServer.lf]
  | .crlf => [cr, StressServer.lf]

def joinLines (e : LineEnding) (lines : List Bytes) : Bytes := lines.flatMap (· ++ e.bytes)

@[simp] theorem joinLines_nil (e : LineEnding) : joinLines e [] = [] := rfl

theorem joinLines_cons (e : LineEnding) (l : Bytes) (lines : List Bytes) :
    joinLines e (l :: lines) = l ++ e.bytes ++ joinLines e lines :=
  List.flatMap_cons

theorem joinLines_concat (e : LineEnding) (lines : List Bytes) (l : Bytes) :
    joinLines e (lines ++ [l]) = joinLines e lines ++ l ++ e.bytes := by
  simp [joinLines]

def Line (l : Bytes) : Prop := ∀ c ∈ l, ¬ (c = cr ∨ c = lf)

theorem endedLines_line {l : Bytes} (h : Line l) (ss rest : Bytes) :
    endedLines false ss (l ++ rest) = endedLines false (ss ++ l) rest := by
  induction l generalizing ss with
  | nil => simp
  | cons c l ih =>
    obtain ⟨hc, hl⟩ := List.forall_mem_cons.mp h
    simp [endedLines, hc, ih hl]

theorem endedLines_lf {l : Bytes} (h : Line l) (rest : Bytes) :
    endedLines false [] (l ++ LineEnding.lf.bytes ++ rest) = l :: endedLines true [] rest := by
  rw [List.append_assoc, endedLines_line h]
  simp [LineEnding.bytes, endedLines]

theorem endedLines_crlf {l : Bytes} (h : Line l) (rest : Bytes) :
    endedLines false [] (l ++ LineEnding.crlf.bytes ++ rest) = l :: endedLines false [] rest := by
  rw [List.append_assoc, endedLines_line h]
  simp [LineEnding.bytes, endedLines]

theorem endedLines_begun {l : Bytes} (h : Line l) (hl : l ≠ []) (skip : Bool) (ss rest : Bytes) :
    endedLines skip ss (l ++ rest) = endedLines false ss (l ++ rest) := by
  cases skip with
  | false => rfl
  | true =>
    cases l with
    | nil => contradiction
    | cons c l => exact endedLines_skip (fun hc => (List.forall_mem_cons.mp h).1 (.inr hc)) ..

def unswallowed : List Bytes → List Bytes
  | [] => []
  | [l] => [l]
  | l :: [] :: lines => l :: unswallowed lines
  | l :: (c :: m) :: lines => l :: unswallowed ((c :: m) :: lines)

theorem endedLines_joinLines_lf {lines : List Bytes} (h : ∀ l ∈ lines, Line l) :
    endedLines false [] (joinLines .lf lines) = unswallowed lines := by
  induction lines using unswallowed.induct with
  | case1 => rfl
  | case2 l =>
    rw [joinLines_cons, endedLines_lf (h l List.mem_cons_self)]
    rfl
  | case3 l lines ih =>
    obtain ⟨hl, h⟩ := List.forall_mem_cons.mp h
    rw [joinLines_cons, endedLines_lf hl, unswallowed, ← ih (List.forall_mem_cons.mp h).2]
    rfl
  | case4 l c m lines ih =>
    obtain ⟨hl, h⟩ := List.forall_mem_cons.mp h
    have hm := (List.forall_mem_cons.mp h).1
    rw [joinLines_cons, endedLines_lf hl, unswallowed, ← ih h, joinLines_cons, List.append_assoc,
      endedLines_begun hm (List.cons_ne_nil c m)]

theorem endedLines_joinLines_crlf {lines : List Bytes} (h : ∀ l ∈ lines, Line l) :
    endedLines false [] (joinLines .crlf lines) = lines := by
  induction lines with
  | nil => rfl
  | cons l lines ih =>
    obtain ⟨hl, h⟩ := List.forall_mem_cons.mp h
    rw [joinLines_cons, endedLines_crlf hl, ih h]

theorem length_unswallowed_le (lines : List Bytes) : (unswallowed lines).length ≤ lines.length := by
  induction lines using unswallowed.induct with
  | case1 => exact Nat.le_refl _
  | case2 l => exact Nat.le_refl _
  | case3 l lines ih => simp only [unswallowed, List.length_cons]; omega
  | case4 l c m lines ih => simpa [unswallowed] using ih

theorem unswallowed_eq_self_iff {lines : List Bytes} :
    unswallowed lines = lines ↔ [] ∉ lines.tail := by
  induction lines using unswallowed.induct with
  | case1 => simp [unswallowed]
  | case2 l => simp [unswallowed]
  | case3 l lines ih =>
    refine iff_of_false (fun h => ?_) (by simp)
    have hlen := congrArg List.length h
    have := length_unswallowed_le lines
    simp only [unswallowed, List.length_cons] at hlen
    omega
  | case4 l c m lines ih => simpa [unswallowed] using ih

theorem length_endedLines_concat {l : Bytes} (h : Line l) (hl : l ≠ []) (e : LineEnding)
    (skip : Bool) (ss text : Bytes) :
    (endedLines skip ss (text ++ l ++ e.bytes)).length =
      (endedLines skip ss (text ++ l)).length + 1 := by
  induction text generalizing skip ss with
  | nil =>
    have hbegun := endedLines_begun h hl skip ss []
    rw [List.append_nil] at hbegun
    rw [List.nil_append, endedLines_begun h hl, hbegun, ← List.append_nil l, List.append_assoc,
      endedLines_line h, endedLines_line h]
    cases e <;> simp [LineEnding.bytes, endedLines]
  | cons c text ih =>
    simp only [List.cons_append, endedLines]
    split
    · split
      · exact ih ..
      · simpa using ih true []
    · exact ih ..

theorem readCsv_ne_unterminated {l : Bytes} (h : Line l) (hl : l ≠ []) (e : LineEnding)
    (text : Bytes) : readCsv (text ++ l) ≠ readCsv (text ++ l ++ e.bytes) := by
  rw [readCsv_eq, readCsv_eq]
  intro heq
  have hlen := length_endedLines_concat h hl e false [] text
  rw [← Option.some.inj heq] at hlen
  omega

theorem readCsv_lf_iff {lines : List Bytes} (h : ∀ l ∈ lines, Line l) :
    readCsv (joinLines .lf lines) = some lines ↔ [] ∉ lines.tail := by
  rw [readCsv_eq, endedLines_joinLines_lf h, Option.some.injEq, unswallowed_eq_self_iff]

theorem readCsv_crlf {lines : List Bytes} (h : ∀ l ∈ lines, Line l) :
    readCsv (joinLines .crlf lines) = some lines := by
  rw [readCsv_eq, endedLines_joinLines_crlf h]

/-- Leaving out the end of a last line that is not empty makes no difference. -/
def OpenEnded (e : LineEnding) (lines : List Bytes) : Prop :=
  ∀ init last, lines = init ++ [last] → last ≠ [] →
    readCsv (joinLines e init ++ last) = readCsv (joinLines e lines)

theorem openEnded_iff {lines : List Bytes} (h : ∀ l ∈ lines, Line l) (e : LineEnding) :
    OpenEnded e lines ↔ ∀ l ∈ lines.getLast?, l = [] := by
  constructor
  · intro hopen l hl
    by_contra hne
    obtain ⟨init, rfl⟩ := List.getLast?_eq_some_iff.mp hl
    have heq := hopen init l rfl hne
    rw [joinLines_concat] at heq
    exact readCsv_ne_unterminated (h l (by simp)) hne e _ heq
  · rintro hlast init last rfl hne
    exact absurd (hlast last (by simp)) hne

structure Inverts (lines : List Bytes) : Prop where
  joined : ∀ e, readCsv (joinLines e lines) = some lines
  openEnded : ∀ e, OpenEnded e lines

/-- An LF swallows an empty line after it, and a last line that is not ended is dropped. -/
theorem inverts_iff {lines : List Bytes} (h : ∀ l ∈ lines, Line l) :
    (Inverts lines ↔ [] ∉ lines.tail ∧ ∀ l ∈ lines.getLast?, l = []) ∧
      (readCsv (joinLines .lf lines) = some lines ↔ [] ∉ lines.tail) ∧
      readCsv (joinLines .crlf lines) = some lines ∧
      ∀ e, OpenEnded e lines ↔ ∀ l ∈ lines.getLast?, l = [] := by
  refine ⟨⟨fun hinv => ?_, fun hcond => ?_⟩, readCsv_lf_iff h, readCsv_crlf h, openEnded_iff h⟩
  · exact ⟨(readCsv_lf_iff h).mp (hinv.joined .lf), (openEnded_iff h .lf).mp (hinv.openEnded .lf)⟩
  · refine ⟨fun e => ?_, fun e => (openEnded_iff h e).mpr hcond.2⟩
    cases e with
    | lf => exact (readCsv_lf_iff h).mpr hcond.1
    | crlf => exact readCsv_crlf h

theorem line_nil : ∀ l ∈ [([] : Bytes)], Line l := by simp [Line]

theorem line_three : ∀ l ∈ [([97, 98] : Bytes), [99], [100, 101]], Line l := by
  simp [Line, cr, lf]

theorem inverts_iff_lines :
    Inverts [[]] ∧ (∀ e, readCsv (joinLines e [[97, 98], [99], [100, 101]]) =
        some [[97, 98], [99], [100, 101]]) ∧
      ∀ e, ¬ OpenEnded e [[97, 98], [99], [100, 101]] := by
  obtain ⟨-, hlf, hcrlf, hopen⟩ := inverts_iff line_three
  refine ⟨(inverts_iff line_nil).1.mpr (by simp), fun e => ?_, fun e h => ?_⟩
  · cases e with
    | lf => exact hlf.mpr (by simp)
    | crlf => exact hcrlf
  · exact absurd ((hopen e).mp h) (by simp)

/-- Of the lines `"a"`, `""`, `"b"` the second is lost. -/
theorem not_inverts_blank : ¬ ∀ lines : List Bytes, (∀ l ∈ lines, Line l) → Inverts lines := by
  intro h
  have hinv := (h [[97], [], [98]] (by simp [Line, cr, lf])).joined .lf
  exact absurd hinv (by decide)

end ChattingServer.V10.StressServer
