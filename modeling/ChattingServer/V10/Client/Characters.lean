import ChattingServer.Lib.DoubleByte
import ChattingServer.V10.Client.Splitting

namespace ChattingServer.V10.Client

open Lib

/-! Lines of one-byte characters below 0x80 and of two-byte characters of bytes from 0x80 on -/

def oneByte (b : UInt8) : Prop := b < 0x80

instance : DecidablePred oneByte := fun b => inferInstanceAs (Decidable (b < 0x80))

/-- The strings that are put into packets for a line, when all sends succeed, are of whole
characters. -/
def SplitsWhole (line : Bytes) : Prop :=
  ∀ (c : IOCPClient) stack, ∃ r, c.processSendMsg line stack (fun _ => true) = some r ∧
    ∀ o ∈ r.outgoing, Whole oneByte o.content

theorem whole_wholeChatPrefix : Whole oneByte wholeChatPrefix :=
  .single (by decide) (.double (by decide) (by decide) (.double (by decide) (by decide)
    (.single (by decide) .nil)))

theorem whole_drop_six_iff {b : Bytes} (h : wholeChatPrefix <+: b) :
    Whole oneByte (b.drop 6) ↔ Whole oneByte b := by
  obtain ⟨rest, rfl⟩ := h
  constructor
  · exact fun hrest => whole_wholeChatPrefix.append hrest
  · exact fun hb => (hb.split whole_wholeChatPrefix.even_halves).2

theorem whole_modifyHead_iff {line : Bytes} {chunks : List Bytes}
    (h : Chunks limitSize line chunks) (hbegins : wholeChatPrefix <+: line) :
    (∀ b ∈ chunks.modifyHead (·.drop 6), Whole oneByte b) ↔ ∀ b ∈ chunks, Whole oneByte b := by
  have hne : line ≠ [] := hbegins.ne_nil (by decide)
  obtain ⟨rest, rfl, -⟩ := h.exists_head hne
  have hfirst : wholeChatPrefix <+: line.take limitSize :=
    List.prefix_take_iff.mpr ⟨hbegins, by decide⟩
  rw [List.modifyHead_cons, List.forall_mem_cons, List.forall_mem_cons, whole_drop_six_iff hfirst]

theorem CastAs.forall_whole_iff {line : Bytes} {type : Action} {strBufs : List Bytes}
    (h : CastAs line type strBufs) (hlong : limitSize < line.length) (hline : Whole oneByte line) :
    (∀ b ∈ strBufs, Whole oneByte b) ↔
      ∀ k, Even (Whole.halves oneByte (line.take (k * limitSize))) := by
  obtain ⟨chunks, -, hchunks, rfl⟩ := h.long hlong
  rw [← hchunks.forall_whole_iff hline]
  split
  · exact whole_modifyHead_iff hchunks ‹_›
  · exact Iff.rfl

theorem whole_whisperText {line : Bytes} (h : Whole oneByte line) :
    Whole oneByte (whisperText line) := by
  unfold whisperText
  split
  · rename_i hmem
    have hidx := List.idxOf_lt_length_of_mem hmem
    rw [← List.take_append_drop (line.idxOf space) line, List.drop_eq_getElem_cons hidx,
      List.getElem_idxOf hidx] at h
    exact (h.append_single (by decide)).2
  · exact h

theorem CastAs.splitsWhole_iff_forall {line : Bytes} {type : Action} {strBufs : List Bytes}
    (h : CastAs line type strBufs) :
    SplitsWhole line ↔ ∀ b ∈ strBufs, Whole oneByte b := by
  have hmap : ∀ (c : IOCPClient) stack, ((c.castAll type (castPacket type c.nickname) stack
      (fun _ => true) 0 strBufs).outgoing.map (·.content)) = strBufs := fun c stack => by
    rw [IOCPClient.map_outgoing_castAll (g := id) (fun _ _ _ => rfl), List.map_id]
  constructor
  · intro hwhole
    obtain ⟨r, hr, hcontent⟩ := hwhole ⟨[], true, 0⟩ fun _ _ => 0
    rw [h.sent] at hr
    rw [← hmap ⟨[], true, 0⟩ fun _ _ => 0, List.forall_mem_map, Option.some.inj hr]
    exact hcontent
  · intro hwhole c stack
    refine ⟨_, h.sent c stack _, ?_⟩
    rwa [← hmap c stack, List.forall_mem_map] at hwhole

theorem splitsWhole_of_whisper {line : Bytes} (hline : Whole oneByte line) (h : Whisper line) :
    SplitsWhole line := by
  intro c stack
  refine ⟨_, c.processSendMsg_whisper h .., fun o ho => ?_⟩
  rw [IOCPClient.outgoing_sendPacket] at ho
  obtain rfl := List.mem_singleton.mp ho
  exact whole_whisperText hline

theorem splitsWhole_iff_of_not_whisper {line : Bytes} (hline : Whole oneByte line)
    (hlong : limitSize < line.length) (h : ¬ Whisper line) :
    SplitsWhole line ↔ ∀ k, Even (Whole.halves oneByte (line.take (k * limitSize))) := by
  obtain ⟨type, strBufs, hcast⟩ := exists_castAs (ne_of_long hlong (by decide))
    (ne_of_long hlong (by decide)) h
  rw [hcast.splitsWhole_iff_forall, hcast.forall_whole_iff hlong hline]

/-- A chunk ends within a character exactly when an odd number of halves of characters stands before
its end.  A whisper is not split. -/
theorem splitsWhole_iff {line : Bytes} (hline : Whole oneByte line)
    (hlong : limitSize < line.length) :
    SplitsWhole line ↔
      (¬ Whisper line → ∀ k, Even (Whole.halves oneByte (line.take (k * limitSize)))) := by
  by_cases hwhisper : Whisper line
  · exact iff_of_true (splitsWhole_of_whisper hline hwhisper) fun h => absurd hwhisper h
  · rw [splitsWhole_iff_of_not_whisper hline hlong hwhisper, imp_iff_right hwhisper]

theorem whole_replicate_ascii (n : Nat) : Whole oneByte (List.replicate n 97) := by
  induction n with
  | zero => exact .nil
  | succ n ih => exact .single (by decide) ih

theorem halves_replicate_ascii (n : Nat) : Whole.halves oneByte (List.replicate n 97) = 0 := by
  simp [Whole.halves, List.countP_replicate, oneByte]

theorem splitsWhole_ascii : SplitsWhole (List.replicate 601 97) :=
  (splitsWhole_iff (whole_replicate_ascii 601) (by rw [List.length_replicate]; decide)).mpr
    fun _ k => by rw [List.take_replicate, halves_replicate_ascii]; exact Even.zero

theorem whole_replicate_doubleByte (n : Nat) : Whole oneByte (List.replicate (2 * n) 0xB0) := by
  induction n with
  | zero => exact .nil
  | succ n ih => exact .double (by decide) (by decide) ih

theorem halves_replicate_doubleByte (n : Nat) :
    Whole.halves oneByte (List.replicate n 0xB0) = n := by
  simp [Whole.halves, List.countP_replicate, oneByte]

/-- The letter `a` and 300 two-byte characters -/
theorem not_splitsWhole_doubleByte : ¬ ∀ line : Bytes, Whole oneByte line →
    limitSize < line.length → SplitsWhole line := by
  intro h
  have hline : Whole oneByte (97 :: List.replicate (2 * 300) 0xB0) :=
    .single (by decide) (whole_replicate_doubleByte 300)
  have hlong : limitSize < (97 :: List.replicate (2 * 300) (0xB0 : UInt8)).length := by
    rw [List.length_cons, List.length_replicate]
    decide
  have hwhisper : ¬ Whisper (97 :: List.replicate (2 * 300) 0xB0) := fun hw =>
    absurd hw.2.2.2 (by rw [List.head?_cons]; decide)
  have heven := (splitsWhole_iff_of_not_whisper hline hlong hwhisper).mp (h _ hline hlong) 1
  have htake : (97 :: List.replicate (2 * 300) (0xB0 : UInt8)).take (1 * limitSize) =
      97 :: List.replicate 599 0xB0 := by
    change List.take (599 + 1) _ = _
    rw [List.take_succ_cons, List.take_replicate]
    rfl
  rw [htake, Whole.halves_cons_single (by decide), halves_replicate_doubleByte] at heven
  exact absurd heven (by decide)

end ChattingServer.V10.Client
