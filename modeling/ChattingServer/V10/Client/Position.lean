import Mathlib.Data.List.GetD
import ChattingServer.Lib.Loop
import ChattingServer.V10.Server.UserInfo

namespace ChattingServer.V10.Client

open Lib

structure Position where
  sendY : Int16
  recvY : Int16
  deriving DecidableEq

def Position.newRow (p : Position) : Position :=
  let recvY := p.recvY + 1
  ⟨if 20 ≤ recvY then p.sendY + 1 else p.sendY, recvY⟩

def chatBoxSize : Nat := 50

def negative (c : UInt8) : Prop := 0x80 ≤ c

instance : DecidablePred negative := fun c => inferInstanceAs (Decidable (0x80 ≤ c))

structure Wrapping where
  position : Position
  start : Nat
  stop : Nat
  segments : List Bytes

namespace Wrapping

/-- Where the line ends: `if (content[end-1] < 0) end--` -/
def pulled (content : Bytes) (stop : Nat) : Nat :=
  if negative (content.getD (stop - 1) 0) then stop - 1 else stop

def printLine (content : Bytes) (w : Wrapping) : Wrapping :=
  let stop := pulled content w.stop
  { w with
    segments := w.segments ++ [(content.take stop).drop w.start]
    start := stop
    stop := if stop + chatBoxSize < content.length then stop + chatBoxSize else content.length }

def nextRow (w : Wrapping) : Wrapping := { w with position := w.position.newRow }

def body (content : Bytes) (w : Wrapping) : Turn Wrapping :=
  let w := w.printLine content
  if w.stop ≤ w.start then .done w else .again w.nextRow

end Wrapping

namespace Position

/-- `Position::Receive`, with at most `n` turns of the loop: the rows it leaves and the parts of the
content it has printed.  The content is what stands before its NUL, and the first line has room for
a nickname of at most 44 bytes. -/
def receive (n : Nat) (p : Position) (nickname content : Bytes) : Option (Position × List Bytes) :=
  let p := p.newRow
  if content.length < chatBoxSize then some (p, [content])
  else
    let w := Turn.iterate (Wrapping.body content) n ⟨p, 0, chatBoxSize - nickname.length - 6, []⟩
    w.map fun w => (w.position, w.segments)

end Position

namespace Wrapping

structure Begun (content : Bytes) (w : Wrapping) : Prop where
  printed : w.segments.flatten = content.take w.start
  start : w.start < w.stop
  stop : w.stop ≤ content.length
  room : w.stop < content.length → w.start + 2 ≤ w.stop

theorem pulled_le (content : Bytes) (stop : Nat) : pulled content stop ≤ stop := by
  unfold pulled
  split <;> omega

theorem le_pulled_add_one (content : Bytes) (stop : Nat) : stop ≤ pulled content stop + 1 := by
  unfold pulled
  split <;> omega

theorem pulled_length {content : Bytes} (h : content ≠ []) :
    pulled content content.length = content.length ↔ ∀ c ∈ content.getLast?, ¬ negative c := by
  have hpos := List.length_pos_iff.mpr h
  have hlast : content.getD (content.length - 1) 0 = content.getLast h := by
    rw [List.getD_eq_getElem _ _ (by omega), List.getLast_eq_getElem]
  simp only [pulled, hlast, List.getLast?_eq_some_getLast h, Option.mem_some_iff, forall_eq']
  split
  · exact iff_of_false (by omega) (not_not_intro ‹_›)
  · exact iff_of_true rfl ‹_›

theorem take_append_slice (content : Bytes) {start stop : Nat} (h : start ≤ stop) :
    content.take start ++ (content.take stop).drop start = content.take stop := by
  have happend := List.take_append_drop start (content.take stop)
  rwa [List.take_take, Nat.min_eq_left h] at happend

theorem Begun.printed_printLine {content : Bytes} {w : Wrapping} (h : w.Begun content) :
    (w.printLine content).segments.flatten = content.take (w.printLine content).start := by
  have hle : w.start ≤ pulled content w.stop := by
    have := h.start
    have := le_pulled_add_one content w.stop
    omega
  simp only [printLine, List.flatten_append, h.printed, List.flatten_singleton]
  exact take_append_slice content hle

theorem stop_printLine (content : Bytes) (w : Wrapping) :
    (w.printLine content).stop = min ((w.printLine content).start + 50) content.length := by
  change (if pulled content w.stop + 50 < content.length then pulled content w.stop + 50
    else content.length) = min (pulled content w.stop + 50) content.length
  split <;> omega

theorem Begun.lt_start {content : Bytes} {w : Wrapping} (h : w.Begun content)
    (hlt : w.stop < content.length) : w.start < (w.printLine content).start := by
  have := h.room hlt
  have : w.stop ≤ (w.printLine content).start + 1 := le_pulled_add_one content w.stop
  omega

theorem Begun.next {content : Bytes} {w : Wrapping} (h : w.Begun content)
    (hlt : (w.printLine content).start < content.length) :
    (w.printLine content).nextRow.Begun content := by
  have hstop := stop_printLine content w
  refine ⟨h.printed_printLine, ?_, ?_, fun _ => ?_⟩
  · change (w.printLine content).start < (w.printLine content).stop
    omega
  · change (w.printLine content).stop ≤ content.length
    omega
  · change (w.printLine content).start + 2 ≤ (w.printLine content).stop
    change (w.printLine content).stop < content.length at ‹_›
    omega

theorem body_of_le {content : Bytes} {w : Wrapping}
    (h : content.length ≤ (w.printLine content).start) :
    body content w = .done (w.printLine content) := by
  have := stop_printLine content w
  exact if_pos (by omega)

theorem body_of_lt {content : Bytes} {w : Wrapping}
    (h : (w.printLine content).start < content.length) :
    body content w = .again (w.printLine content).nextRow := by
  have := stop_printLine content w
  exact if_neg (by omega)

theorem Begun.iterate_eq_some {content : Bytes} (hlast : ∀ c ∈ content.getLast?, ¬ negative c)
    {w : Wrapping} (h : w.Begun content) :
    ∃ w', Turn.iterate (body content) (content.length + 1) w = some w' ∧
      w'.segments.flatten = content := by
  refine Turn.exists_iterate (V := fun w => content.length - w.start) (fun w h => ?_) h
    (Nat.lt_succ_of_le (Nat.sub_le ..))
  by_cases hend : content.length ≤ (w.printLine content).start
  · refine .inr ⟨_, body_of_le hend, ?_⟩
    rw [h.printed_printLine, List.take_of_length_le hend]
  · have hlt : (w.printLine content).start < content.length := by omega
    have hstop : w.stop < content.length := Nat.lt_of_le_of_ne h.stop fun heq => by
      have hne : content ≠ [] := List.length_pos_iff.mp (by omega)
      have hpulled := (pulled_length hne).mpr hlast
      have : (w.printLine content).start = pulled content w.stop := rfl
      rw [heq] at this
      omega
    have := h.lt_start hstop
    refine .inl ⟨_, body_of_lt hlt, h.next hlt, ?_⟩
    change content.length - (w.printLine content).start < content.length - w.start
    omega

theorem Begun.iterate_eq_none {content : Bytes} (hlast : ¬ ∀ c ∈ content.getLast?, ¬ negative c)
    (n : Nat) {w : Wrapping} (h : w.Begun content) : Turn.iterate (body content) n w = none := by
  refine Turn.iterate_eq_none (fun w h => ?_) n h
  have hlt : (w.printLine content).start < content.length := by
    change pulled content w.stop < content.length
    rcases Nat.lt_or_eq_of_le h.stop with hstop | hstop
    · exact Nat.lt_of_le_of_lt (pulled_le content w.stop) hstop
    · have hne : content ≠ [] := by
        rintro rfl
        exact hlast (by simp)
      rw [hstop]
      exact Nat.lt_of_le_of_ne (pulled_le ..) fun heq => hlast ((pulled_length hne).mp heq)
  exact ⟨_, body_of_lt hlt, h.next hlt⟩

end Wrapping

namespace Position

def Lossless (p : Position) (nickname content : Bytes) : Prop :=
  ∃ n p' segments, receive n p nickname content = some (p', segments) ∧ segments.flatten = content

theorem begun_first {nickname content : Bytes} (hnick : nickname.length ≤ 30)
    (hcontent : chatBoxSize ≤ content.length) (p : Position) :
    Wrapping.Begun content ⟨p, 0, chatBoxSize - nickname.length - 6, []⟩ := by
  simp only [chatBoxSize] at *
  refine ⟨by simp, ?_, ?_, fun _ => ?_⟩ <;> dsimp only <;> omega

theorem receive_eq {content : Bytes} (hcontent : chatBoxSize ≤ content.length) (n : Nat)
    (p : Position) (nickname : Bytes) :
    receive n p nickname content =
      (Turn.iterate (Wrapping.body content) n
        ⟨p.newRow, 0, chatBoxSize - nickname.length - 6, []⟩).map
          fun w => (w.position, w.segments) :=
  if_neg (by omega)

theorem receive_eq_none {nickname content : Bytes} (hnick : nickname.length ≤ 30)
    (hcontent : chatBoxSize ≤ content.length) (hlast : ¬ ∀ c ∈ content.getLast?, ¬ negative c)
    (p : Position) (n : Nat) : receive n p nickname content = none := by
  rw [receive_eq hcontent, (begun_first hnick hcontent _).iterate_eq_none hlast]
  rfl

theorem lossless_iff {nickname content : Bytes} (hnick : nickname.length ≤ 30)
    (hcontent : chatBoxSize ≤ content.length) (p : Position) :
    Lossless p nickname content ↔ ∀ c ∈ content.getLast?, ¬ negative c := by
  constructor
  · rintro ⟨n, p', segments, hreceive, -⟩
    refine Classical.byContradiction fun hlast => ?_
    rw [receive_eq_none hnick hcontent hlast] at hreceive
    cases hreceive
  · intro hlast
    obtain ⟨w, hloop, hflatten⟩ := (begun_first hnick hcontent p.newRow).iterate_eq_some hlast
    refine ⟨content.length + 1, w.position, w.segments, ?_, hflatten⟩
    rw [receive_eq hcontent]
    exact congrArg _ hloop

theorem lossless_ascii : Lossless ⟨20, 6⟩ [98] (List.replicate 50 97) :=
  (lossless_iff (by decide) (by decide) _).mpr (by simp [negative])

/-- Fifty bytes 0xB0, which are 25 characters of two bytes each -/
theorem not_lossless_doubleByte : ¬ ∀ (p : Position) (nickname content : Bytes),
    0 < nickname.length → nickname.length ≤ 30 → chatBoxSize ≤ content.length → 0 ∉ content →
      Lossless p nickname content := by
  intro h
  have hlossless := h ⟨20, 6⟩ [98] (List.replicate 50 0xB0) (by decide) (by decide) (by decide)
    (by decide)
  obtain ⟨n, p', segments, hreceive, -⟩ := hlossless
  rw [receive_eq_none (by decide) (by decide) (by simp [negative])] at hreceive
  cases hreceive

end Position

end ChattingServer.V10.Client
