import ChattingServer.Lib.Chunks
import ChattingServer.V10.Client.Messages

namespace ChattingServer.V10.Client

open Lib

/-! What `splitContent` makes of a line -/

theorem Splitting.body_of_ne_nil {s : Splitting} (h : s.content ≠ []) :
    s.body = .again ⟨s.content.drop limitSize, s.strVector ++ [s.content.take limitSize]⟩ := by
  rw [body, if_neg h]
  dsimp only
  split
  · rw [List.take_length, List.take_of_length_le (by omega)]
  · rfl

theorem exists_splitting (content : Bytes) :
    ∃ s, Turn.iterate Splitting.body (content.length + 1) ⟨content, []⟩ = some s ∧
      Chunks limitSize content s.strVector := by
  refine Turn.exists_iterate (V := fun s => s.content.length)
    (I := fun s => ∀ cs, Chunks limitSize s.content cs →
      Chunks limitSize content (s.strVector ++ cs)) (fun s h => ?_) (fun _ => id)
    (Nat.lt_succ_self _)
  by_cases hs : s.content = []
  · refine .inr ⟨s, if_pos hs, ?_⟩
    simpa using h [] (hs ▸ .nil)
  · refine .inl ⟨_, Splitting.body_of_ne_nil hs, fun cs hcs => ?_, ?_⟩
    · rw [List.append_assoc]
      exact h _ (.cons hs hcs)
    · have := List.length_pos_iff.mpr hs
      simp only [List.length_drop, limitSize]
      omega

theorem exists_splitContent {line : Bytes} (h : limitSize < line.length) :
    ∃ chunks, splitContent line = some chunks ∧ Chunks limitSize line chunks := by
  obtain ⟨s, hloop, hchunks⟩ := exists_splitting line
  exact ⟨s.strVector, by rw [splitContent, if_pos h, hloop]; rfl, hchunks⟩

/-! What `processSendMsg` sends for it -/

def Whisper (line : Bytes) : Prop :=
  line ≠ quitCommand ∧ line ≠ lobbyCommand ∧ ¬ wholeChatPrefix <+: line ∧
    line.head? = some slash

instance : DecidablePred Whisper := fun _ => inferInstanceAs (Decidable (_ ∧ _))

namespace IOCPClient

theorem exists_of_mem_castAll {c : IOCPClient} {action : Action}
    {cast : Bytes → Memory UInt8 → Outgoing} {stack : Nat → Memory UInt8} {success : Nat → Bool}
    {k : Nat} {strBufs : List Bytes} {o : Outgoing}
    (h : o ∈ (c.castAll action cast stack success k strBufs).outgoing) :
    ∃ content ∈ strBufs, ∃ m, o = cast content m := by
  induction strBufs generalizing k with
  | nil => cases h
  | cons content strBufs ih =>
    simp only [castAll] at h
    split at h
    · rcases List.mem_cons.mp h with rfl | h
      · exact ⟨content, List.mem_cons_self, _, rfl⟩
      · exact (ih h).imp fun _ hb => hb.imp_left (List.mem_cons_of_mem _)
    · obtain rfl := List.mem_singleton.mp h
      exact ⟨content, List.mem_cons_self, _, rfl⟩

theorem map_outgoing_castAll {β : Type} {f : Outgoing → β} {g : Bytes → β} {c : IOCPClient}
    {action : Action} {cast : Bytes → Memory UInt8 → Outgoing} {stack : Nat → Memory UInt8}
    {strBufs : List Bytes} (h : ∀ b ∈ strBufs, ∀ m, f (cast b m) = g b) (k : Nat) :
    (c.castAll action cast stack (fun _ => true) k strBufs).outgoing.map f = strBufs.map g := by
  induction strBufs generalizing k with
  | nil => rfl
  | cons content strBufs ih =>
    obtain ⟨hcontent, h⟩ := List.forall_mem_cons.mp h
    simp only [castAll, if_true, List.map_cons, hcontent, ih h]

theorem processSendMsg_whisper (c : IOCPClient) {line : Bytes} (h : Whisper line)
    (stack : Nat → Memory UInt8) (success : Nat → Bool) :
    c.processSendMsg line stack success = some (c.sendPacket .chatUnicast
      (unicastPacket c.nickname (whisperRecver line) (whisperText line) (stack 0))
      (success 0)) := by
  obtain ⟨hquit, hlobby, hbegins, hslash⟩ := h
  rw [processSendMsg, if_neg hquit, if_neg hlobby, if_neg hbegins, if_pos hslash]

theorem outgoing_sendPacket (c : IOCPClient) (action : Action) (o : Outgoing) (success : Bool) :
    (c.sendPacket action o success).outgoing = [o] := by
  cases success <;> rfl

end IOCPClient

structure CastAs (line : Bytes) (type : Action) (strBufs : List Bytes) : Prop where
  length_le : ∀ b ∈ strBufs, b.length ≤ limitSize
  long : limitSize < line.length → ∃ chunks, splitContent line = some chunks ∧
    Chunks limitSize line chunks ∧
    strBufs = if wholeChatPrefix <+: line then chunks.modifyHead (·.drop 6) else chunks
  sent : ∀ (c : IOCPClient) stack success, c.processSendMsg line stack success =
    some (c.castAll type (castPacket type c.nickname) stack success 0 strBufs)

theorem length_modifyHead_drop_le {chunks : List Bytes} {n : Nat} (h : ∀ b ∈ chunks, b.length ≤ n) :
    ∀ b ∈ chunks.modifyHead (·.drop 6), b.length ≤ n := by
  cases chunks with
  | nil => simp
  | cons b chunks =>
    obtain ⟨hb, h⟩ := List.forall_mem_cons.mp h
    refine List.forall_mem_cons.mpr ⟨?_, h⟩
    rw [List.length_drop]
    omega

theorem exists_castAs {line : Bytes} (hquit : line ≠ quitCommand) (hlobby : line ≠ lobbyCommand)
    (hwhisper : ¬ Whisper line) : ∃ type strBufs, CastAs line type strBufs := by
  by_cases hbegins : wholeChatPrefix <+: line
  · by_cases hlong : limitSize < line.length
    · obtain ⟨chunks, hsplit, hchunks⟩ := exists_splitContent hlong
      refine ⟨.chatBroadcast, chunks.modifyHead (·.drop 6),
        length_modifyHead_drop_le fun _ => hchunks.length_le,
        fun _ => ⟨chunks, hsplit, hchunks, ?_⟩, fun c stack success => ?_⟩
      · rw [if_pos hbegins]
      · rw [IOCPClient.processSendMsg, if_neg hquit, if_neg hlobby, if_pos hbegins]
        simp only [if_pos hlong, hsplit, Option.map_some]
        rfl
    · refine ⟨.chatBroadcast, [line.drop 6], ?_, fun h => absurd h hlong, fun c stack success => ?_⟩
      · simp only [List.mem_singleton, forall_eq, List.length_drop]
        omega
      · rw [IOCPClient.processSendMsg, if_neg hquit, if_neg hlobby, if_pos hbegins]
        simp only [if_neg hlong]
        rfl
  · have hslash : line.head? ≠ some slash := fun h => hwhisper ⟨hquit, hlobby, hbegins, h⟩
    by_cases hlong : limitSize < line.length
    · obtain ⟨chunks, hsplit, hchunks⟩ := exists_splitContent hlong
      refine ⟨.chatMulticast, chunks, fun _ => hchunks.length_le,
        fun _ => ⟨chunks, hsplit, hchunks, ?_⟩, fun c stack success => ?_⟩
      · rw [if_neg hbegins]
      · rw [IOCPClient.processSendMsg, if_neg hquit, if_neg hlobby, if_neg hbegins, if_neg hslash]
        simp only [if_pos hlong, hsplit, Option.map_some]
        rfl
    · refine ⟨.chatMulticast, [line], ?_, fun h => absurd h hlong, fun c stack success => ?_⟩
      · simp only [List.mem_singleton, forall_eq]
        omega
      · rw [IOCPClient.processSendMsg, if_neg hquit, if_neg hlobby, if_neg hbegins, if_neg hslash]
        simp only [if_neg hlong]
        rfl

def Outgoing.contentPart (o : Outgoing) : Bytes := o.bytes.drop chatContent

theorem uint16_of_lt {n : Nat} (h : n < 65536) : uint16 n = n := Nat.mod_eq_of_lt h

theorem sent_castPacket {content : Bytes} (h : content.length ≤ limitSize) (type : Action)
    (nickname : Bytes) (stack : Memory UInt8) :
    (castPacket type nickname content stack).sent = chatContent + content.length := by
  simp only [limitSize] at h
  simp only [castPacket, chatContent, chatSender, packetHeaderLength, maxNicknameLen]
  rw [uint16_of_lt (by omega)]
  omega

theorem contentPart_castPacket {content : Bytes} (h : content.length ≤ limitSize) (type : Action)
    (nickname : Bytes) (stack : Memory UInt8) :
    (castPacket type nickname content stack).contentPart = content := by
  rw [Outgoing.contentPart, Outgoing.bytes, sent_castPacket h, Memory.drop_read,
    Nat.add_sub_cancel_left, Nat.zero_add]
  simp only [castPacket]
  rw [Memory.read_write_of_disjoint (.inr (by rw [LittleEndian.length_toBytes]; decide)),
    Memory.read_write_self]

def withoutPrefix (line : Bytes) : Bytes := if wholeChatPrefix <+: line then line.drop 6 else line

theorem flatten_modifyHead_drop {line : Bytes} {chunks : List Bytes}
    (h : Chunks limitSize line chunks) (hlong : limitSize < line.length) :
    (chunks.modifyHead (·.drop 6)).flatten = line.drop 6 := by
  have hne : line ≠ [] := List.length_pos_iff.mp (Nat.zero_lt_of_lt hlong)
  obtain ⟨rest, rfl, hrest⟩ := h.exists_head hne
  have hsix : 6 ≤ (line.take limitSize).length := by
    rw [List.length_take_of_le (Nat.le_of_lt hlong)]
    decide
  rw [List.modifyHead_cons, List.flatten_cons, hrest.flatten, ← List.drop_append_of_le_length hsix,
    List.take_append_drop]

theorem CastAs.flatten {line : Bytes} {type : Action} {strBufs : List Bytes}
    (h : CastAs line type strBufs) (hlong : limitSize < line.length) :
    strBufs.flatten = withoutPrefix line := by
  obtain ⟨chunks, -, hchunks, rfl⟩ := h.long hlong
  unfold withoutPrefix
  split
  · exact flatten_modifyHead_drop hchunks hlong
  · exact hchunks.flatten

theorem ne_of_long {line command : Bytes} (hlong : limitSize < line.length)
    (hcommand : command.length ≤ limitSize) : line ≠ command := by
  rintro rfl
  omega

structure SplitLossless (line : Bytes) (chunks : List Bytes) : Prop where
  ne_nil : ∀ b ∈ chunks, b ≠ []
  length_le : ∀ b ∈ chunks, b.length ≤ limitSize
  flatten : chunks.flatten = line
  sent : ¬ Whisper line → ∀ (c : IOCPClient) stack,
    ∃ r, c.processSendMsg line stack (fun _ => true) = some r ∧
      (r.outgoing.map (·.contentPart)).flatten = withoutPrefix line ∧
      ∀ o ∈ r.outgoing, o.bytes.length ≤ 636

theorem splitContent_lossless {line : Bytes} (hlong : limitSize < line.length) :
    ∃ chunks, splitContent line = some chunks ∧ SplitLossless line chunks := by
  obtain ⟨chunks, hsplit, hchunks⟩ := exists_splitContent hlong
  refine ⟨chunks, hsplit, fun _ => hchunks.ne_nil (by decide), fun _ => hchunks.length_le,
    hchunks.flatten, fun hwhisper c stack => ?_⟩
  obtain ⟨type, strBufs, hcast⟩ := exists_castAs (ne_of_long hlong (by decide))
    (ne_of_long hlong (by decide)) hwhisper
  refine ⟨_, hcast.sent c stack _, ?_, fun o ho => ?_⟩
  · rw [IOCPClient.map_outgoing_castAll (g := id) fun b hb m =>
      contentPart_castPacket (hcast.length_le b hb) .., List.map_id, hcast.flatten hlong]
  · obtain ⟨content, hcontent, m, rfl⟩ := IOCPClient.exists_of_mem_castAll ho
    have hle := hcast.length_le content hcontent
    rw [Outgoing.bytes, Memory.length_read, sent_castPacket hle]
    exact Nat.add_le_add_left hle chatContent

theorem splitContent_lossless_601 :
    ∃ chunks, splitContent (List.replicate 601 97) = some chunks ∧
      SplitLossless (List.replicate 601 97) chunks :=
  splitContent_lossless (by rw [List.length_replicate]; decide)

end ChattingServer.V10.Client
