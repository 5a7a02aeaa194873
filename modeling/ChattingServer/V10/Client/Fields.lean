import ChattingServer.V10.Client.Splitting

namespace ChattingServer.V10.Client

open Lib

/-! The fields of the packets that `processSendMsg` fills in -/

theorem length_le_of_nicknameTest {nickname : Bytes} (h : nicknameTest nickname = none) :
    nickname.length ≤ 30 := by
  unfold nicknameTest at h
  split at h
  · cases h
  · omega

theorem fits_systemPacket {nickname : Bytes} (h : nickname.length ≤ 30) (type : Action)
    (stack : Memory UInt8) : (systemPacket type nickname stack).Fits := by
  refine ⟨?_, ?_⟩
  · simp only [systemPacket, List.mem_singleton, forall_eq, Access.inside_mk, maxNicknameLen]
    omega
  · simp only [systemPacket, packetHeaderLength]
    rw [uint16_of_lt (by omega)]
    omega

theorem fits_castPacket {nickname content : Bytes} (h : nickname.length ≤ 30)
    (hcontent : content.length ≤ limitSize) (type : Action) (stack : Memory UInt8) :
    (castPacket type nickname content stack).Fits := by
  refine ⟨?_, ?_⟩
  · simp only [limitSize] at hcontent
    simp only [castPacket, List.forall_mem_cons, Access.inside_mk, maxNicknameLen, maxContentLen]
    refine ⟨by omega, by omega, List.forall_mem_nil _⟩
  · rw [sent_castPacket hcontent]
    exact Nat.add_le_add_left (Nat.le_trans hcontent (by decide)) chatContent

theorem fits_unicastPacket_iff {nickname : Bytes} (h : nickname.length ≤ 30)
    (recver content : Bytes) (stack : Memory UInt8) :
    (unicastPacket nickname recver content stack).Fits ↔
      recver.length + 1 ≤ maxNicknameLen ∧ content.length + 1 ≤ maxContentLen := by
  constructor
  · intro hfits
    have hcopies := hfits.copies
    simp only [unicastPacket, List.forall_mem_cons, Access.inside_mk] at hcopies
    obtain ⟨-, hcontent, hrecver, -⟩ := hcopies
    exact ⟨by omega, by omega⟩
  · rintro ⟨hrecver, hcontent⟩
    have hstrlen : (cString content 0).length ≤ content.length :=
      (List.takeWhile_sublist _).length_le
    simp only [maxNicknameLen, maxContentLen] at hrecver hcontent
    refine ⟨?_, ?_⟩
    · simp only [unicastPacket, List.forall_mem_cons, Access.inside_mk, maxNicknameLen,
        maxContentLen]
      exact ⟨by omega, by omega, by omega, List.forall_mem_nil _⟩
    · simp only [unicastPacket]
      rw [uint16_of_lt (by omega)]
      exact Nat.add_le_add_left (show _ ≤ 900 by omega) unicastContent

def LineFits (c : IOCPClient) (line : Bytes) : Prop :=
  ∀ stack success, ∃ r, c.processSendMsg line stack success = some r ∧
    ∀ o ∈ r.outgoing, o.Fits

theorem lineFits_of_single {c : IOCPClient} {line : Bytes} {o : Memory UInt8 → Outgoing}
    (h : ∀ stack success, ∃ c' : IOCPClient, ∃ action, c.processSendMsg line stack success =
      some (c'.sendPacket action (o (stack 0)) (success 0))) :
    LineFits c line ↔ ∀ stack, (o stack).Fits := by
  constructor
  · intro hfits stack
    obtain ⟨r, hr, hall⟩ := hfits (fun _ => stack) fun _ => true
    obtain ⟨c', action, hsend⟩ := h (fun _ => stack) fun _ => true
    obtain rfl := Option.some.inj (hr.symm.trans hsend)
    exact hall _ (by simp [IOCPClient.outgoing_sendPacket])
  · intro hfits stack success
    obtain ⟨c', action, hsend⟩ := h stack success
    refine ⟨_, hsend, fun o ho => ?_⟩
    rw [IOCPClient.outgoing_sendPacket] at ho
    obtain rfl := List.mem_singleton.mp ho
    exact hfits _

/-- Every packet fits but that of a whisper with a long name or a long text. -/
theorem lineFits_iff {c : IOCPClient} (hnickname : nicknameTest c.nickname = none)
    (line : Bytes) :
    LineFits c line ↔ (Whisper line →
      (whisperRecver line).length + 1 ≤ maxNicknameLen ∧
        (whisperText line).length + 1 ≤ maxContentLen) := by
  have hlen := length_le_of_nicknameTest hnickname
  by_cases hwhisper : Whisper line
  · rw [imp_iff_right hwhisper, lineFits_of_single fun stack success =>
      ⟨c, .chatUnicast, c.processSendMsg_whisper hwhisper stack success⟩]
    simp only [fits_unicastPacket_iff hlen, forall_const]
  · refine iff_of_true ?_ fun h => absurd h hwhisper
    by_cases hquit : line = quitCommand
    · refine (lineFits_of_single (o := systemPacket .serverExit c.nickname)
        fun stack success => ⟨c, .serverExit, if_pos hquit⟩).mpr fun stack => ?_
      exact fits_systemPacket hlen _ stack
    · by_cases hlobby : line = lobbyCommand
      · refine (lineFits_of_single (o := systemPacket .roomExit c.nickname)
          fun stack success => ⟨{ c with room := 0 }, .roomExit, ?_⟩).mpr fun stack => ?_
        · rw [IOCPClient.processSendMsg, if_neg hquit, if_pos hlobby]
        · exact fits_systemPacket hlen _ stack
      · obtain ⟨type, strBufs, hcast⟩ := exists_castAs hquit hlobby hwhisper
        intro stack success
        refine ⟨_, hcast.sent c stack success, fun o ho => ?_⟩
        obtain ⟨content, hcontent, m, rfl⟩ := IOCPClient.exists_of_mem_castAll ho
        exact fits_castPacket hlen (hcast.length_le content hcontent) type m

theorem lineFits_whisper : LineFits ⟨[97], true, 1⟩ [47, 98, 32, 104, 105] :=
  (lineFits_iff (by decide) _).mpr fun _ => by decide

/-- A slash and 32 times the letter `b`: a whisper to a name that needs 33 bytes -/
theorem not_lineFits_longName : ¬ ∀ (c : IOCPClient) (line : Bytes),
    nicknameTest c.nickname = none → line ≠ [] → LineFits c line := by
  intro h
  have hline := h ⟨[97], true, 1⟩ (47 :: List.replicate 32 98) (by decide) (by decide)
  have hwhisper : Whisper (47 :: List.replicate 32 98) := by decide
  rw [lineFits_of_single fun stack success =>
    ⟨_, _, IOCPClient.processSendMsg_whisper _ hwhisper stack success⟩] at hline
  exact absurd ((fits_unicastPacket_iff (by decide) _ _ _).mp (hline fun _ => 0)) (by decide)

end ChattingServer.V10.Client
