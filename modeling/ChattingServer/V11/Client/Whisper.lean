import ChattingServer.V11.Client.Display
import ChattingServer.V11.Server.SessionSafety

namespace ChattingServer.V11

open Lib

namespace Server

def Named (s : Server) (name : Str) : Prop :=
  ∃ v u, s.Registered v ∧ s.user v = .live u ∧ u.nickname = name

def Resolves (s : Server) (name : Str) : Prop :=
  ∃ v u, s.findByNickname name s.userList.values = .ok (some v) ∧ s.Registered v ∧
    s.user v = .live u ∧ u.nickname = name

theorem nickname_of_findByNickname {s : Server} {name : Str} {users : List UserPtr} {w : UserPtr}
    (h : s.findByNickname name users = .ok (some w)) :
    ∃ u, s.user w = .live u ∧ u.nickname = name := by
  induction users with
  | nil => cases h
  | cons v users ih =>
    simp only [findByNickname, bind_eq_ok_iff, Prod.exists] at h
    obtain ⟨_, u, hv, h⟩ := h
    obtain ⟨⟨⟩, hu⟩ := deref_ok_iff.mp hv
    split at h
    · cases h
      exact ⟨u, hu, Eq.symm ‹_›⟩
    · exact ih h

theorem nickname_ne_of_findByNickname {s : Server} {name : Str} {users : List UserPtr}
    (h : s.findByNickname name users = .ok none) {v : UserPtr} {u : User} (hv : v ∈ users)
    (hu : s.user v = .live u) : u.nickname ≠ name := by
  induction users with
  | nil => cases hv
  | cons w users ih =>
    simp only [findByNickname, bind_eq_ok_iff, Prod.exists] at h
    obtain ⟨_, x, hw, h⟩ := h
    obtain ⟨⟨⟩, hx⟩ := deref_ok_iff.mp hw
    split at h
    · cases h
    · rename_i hne
      rcases List.mem_cons.mp hv with rfl | hv
      · cases hu.symm.trans hx
        exact Ne.symm hne
      · exact ih h hv

theorem Registry.resolves {s : Server} (h : Registry s) {name : Str} (hname : s.Named name) :
    s.Resolves name := by
  obtain ⟨v, u, ⟨id, hid⟩, hu, hnick⟩ := hname
  have hlive : ∀ w ∈ s.userList.values, ∃ x, s.user w = .live x := fun w hw =>
    (h.live (StdMap.mem_values_iff.mp hw)).imp fun _ hx => hx.1
  obtain ⟨found, hfound⟩ := findByNickname_ok hlive name
  cases found with
  | none =>
    have hv : v ∈ s.userList.values := StdMap.mem_values_iff.mpr ⟨id, hid⟩
    exact absurd hnick (nickname_ne_of_findByNickname hfound hv hu)
  | some w =>
    obtain ⟨x, hx, hnick'⟩ := nickname_of_findByNickname hfound
    exact ⟨w, x, hfound, StdMap.mem_values_iff.mp (findByNickname_mem hfound), hx, hnick'⟩

end Server

namespace RoomDisplay

def whisperLine (n t : Str) : Str := slash :: n ++ space :: t

def allWord : Str := [97, 108, 108]

theorem allCommand_eq : allCommand = whisperLine allWord [] := rfl

theorem take_idxOf_space (n t : Str) :
    (n ++ space :: t).take ((n ++ space :: t).idxOf space) = n.take (n.idxOf space) := by
  by_cases h : space ∈ n
  · rw [List.idxOf_append_of_mem h, List.take_append_of_le_length List.idxOf_le_length]
  · simp [List.idxOf_append_of_notMem h, List.idxOf_eq_length h]

theorem take_idxOf_eq_self_iff {n : Str} : n.take (n.idxOf space) = n ↔ space ∉ n := by
  rw [List.take_eq_self_iff, ← List.idxOf_lt_length_iff, not_lt]

theorem idxOf_whisperLine (n t : Str) :
    (whisperLine n t).idxOf space = (n ++ space :: t).idxOf space + 1 :=
  List.idxOf_cons_ne _ (by decide)

theorem parseForNickname_whisperLine (n t : Str) :
    parseForNickname (whisperLine n t) = n.take (n.idxOf space) := by
  rw [parseForNickname, idxOf_whisperLine, ← take_idxOf_space n t]
  rfl

theorem drop_whisperLine {n : Str} (h : space ∉ n) (t : Str) :
    (whisperLine n t).drop ((whisperLine n t).idxOf space + 1) = t := by
  have hidx : (n ++ space :: t).idxOf space = n.length := by
    simp [List.idxOf_append_of_notMem h]
  rw [idxOf_whisperLine, hidx]
  simp [whisperLine]

theorem whisperLine_ne_of_space_not_mem {n t command : Str} (h : space ∉ command) :
    whisperLine n t ≠ command := by
  rintro rfl
  exact h (by simp [whisperLine])

theorem allCommand_prefix_iff {n : Str} (h : space ∉ n) (t : Str) :
    allCommand <+: whisperLine n t ↔ n = allWord := by
  constructor
  · rintro ⟨rest, hrest⟩
    have hname : parseForNickname (whisperLine allWord rest) =
        parseForNickname (whisperLine n t) := congrArg parseForNickname hrest
    rw [parseForNickname_whisperLine, parseForNickname_whisperLine,
      take_idxOf_eq_self_iff.mpr h, take_idxOf_eq_self_iff.mpr (by decide)] at hname
    exact hname.symm
  · rintro rfl
    exact ⟨t, rfl⟩

theorem sendChat_whisperLine {n t : Str} (ht : t ≠ []) :
    sendChat (whisperLine n t) = .cUnicast n t ↔ space ∉ n ∧ n ≠ allWord := by
  have hquit : whisperLine n t ≠ quitCommand := whisperLine_ne_of_space_not_mem (by decide)
  have hlobby : whisperLine n t ≠ lobbyCommand := whisperLine_ne_of_space_not_mem (by decide)
  have hslash : [slash] <+: whisperLine n t ∧ space ∈ whisperLine n t :=
    ⟨⟨n ++ space :: t, rfl⟩, by simp [whisperLine]⟩
  simp only [sendChat, if_neg hquit, if_neg hlobby, if_pos hslash]
  constructor
  · intro h
    split at h
    · cases h
    · rename_i hall
      obtain ⟨hname, -⟩ := Packet.cUnicast.inj h
      rw [parseForNickname_whisperLine, take_idxOf_eq_self_iff] at hname
      refine ⟨hname, fun hn => hall ⟨(allCommand_prefix_iff hname t).mpr hn, ?_⟩⟩
      have := List.length_pos_iff.mpr ht
      subst hn
      simp only [allCommand_eq, whisperLine, List.length_append, List.length_cons,
        List.length_nil]
      omega
  · rintro ⟨hname, hn⟩
    rw [if_neg fun hall => hn ((allCommand_prefix_iff hname t).mp hall.1),
      parseForNickname_whisperLine, take_idxOf_eq_self_iff.mpr hname, drop_whisperLine hname]

structure Whispered (n t : Str) : Prop where
  sent : sendChat (whisperLine n t) = .cUnicast n t
  found : ∀ s, Server.system.Reachable s → s.Named n → s.Resolves n

/-- The name that a user can have and cannot be whispered by is one with a space, or `"all"`. -/
theorem whispered_iff {n t : Str} (ht : t ≠ []) :
    Whispered n t ↔ space ∉ n ∧ n ≠ allWord := by
  constructor
  · intro h
    exact (sendChat_whisperLine ht).mp h.sent
  · intro h
    exact ⟨(sendChat_whisperLine ht).mpr h, fun s hs hname =>
      (Server.registry_of_reach hs).resolves hname⟩

theorem whispered_bob : Whispered [98, 111, 98] [104, 105] :=
  (whispered_iff (by decide)).mpr (by decide)

/-- Whispering `"hi"` to `"all"` -/
theorem not_whispered_all : ¬ ∀ n t : Str, n ≠ [] → t ≠ [] → Whispered n t := by
  intro h
  have hsent := (h allWord [104, 105] (by decide) (by decide)).sent
  exact absurd hsent (by decide)

end RoomDisplay

end ChattingServer.V11
