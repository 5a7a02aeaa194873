import ChattingServer.V11.NetworkLib.PacketFactory

namespace ChattingServer.V11

open Lib

/-! What can be read off an array that ends in zeros. -/

def Trails (n : Nat) (l : List UInt8) : Prop := ∃ a, l = a ++ List.replicate n 0

theorem Trails.mono {n m : Nat} {l : List UInt8} (h : Trails n l) (hm : m ≤ n) : Trails m l := by
  obtain ⟨a, rfl⟩ := h
  refine ⟨a ++ List.replicate (n - m) 0, ?_⟩
  rw [List.append_assoc, List.replicate_append_replicate, Nat.sub_add_cancel hm]

theorem Trails.drop {n d : Nat} {l : List UInt8} (h : Trails n l) (hd : d + n ≤ l.length) :
    Trails n (l.drop d) := by
  obtain ⟨a, rfl⟩ := h
  rw [List.length_append, List.length_replicate] at hd
  exact ⟨a.drop d, List.drop_append_of_le_length (Nat.le_of_add_le_add_right hd)⟩

theorem exists_u16 {l : List UInt8} (h : 2 ≤ l.length) : ∃ v, Packet.u16 v = l.take 2 := by
  have hlen : (l.take 2).length = 2 := by rw [List.length_take]; omega
  have hlt := LittleEndian.ofBytes_lt (l.take 2)
  have hback := LittleEndian.toBytes_ofBytes (l.take 2)
  rw [hlen] at hlt hback
  refine ⟨UInt16.ofNat (LittleEndian.ofBytes (l.take 2)), ?_⟩
  rw [Packet.u16, UInt16.toNat_ofNat_of_lt' hlt, hback]

theorem exists_u32 {l : List UInt8} (h : 4 ≤ l.length) : ∃ v, Packet.u32 v = l.take 4 := by
  have hlen : (l.take 4).length = 4 := by rw [List.length_take]; omega
  have hlt := LittleEndian.ofBytes_lt (l.take 4)
  have hback := LittleEndian.toBytes_ofBytes (l.take 4)
  rw [hlen] at hlt hback
  refine ⟨UInt32.ofNat (LittleEndian.ofBytes (l.take 4)), ?_⟩
  rw [Packet.u32, UInt32.toNat_ofNat_of_lt' hlt, hback]

theorem exists_flatMap {α : Type} {bytes : α → List UInt8} {size : Nat}
    (h : ∀ l : List UInt8, size ≤ l.length → ∃ v, bytes v = l.take size) (count : Nat)
    {l : List UInt8} (hl : size * count ≤ l.length) :
    ∃ vs : List α, vs.length = count ∧ vs.flatMap bytes = l.take (size * count) := by
  induction count generalizing l with
  | zero => exact ⟨[], rfl, by simp⟩
  | succ count ih =>
    rw [Nat.mul_succ] at hl
    obtain ⟨v, hv⟩ := h l (by omega)
    obtain ⟨vs, hlen, hvs⟩ := ih (l := l.drop size) (by rw [List.length_drop]; omega)
    refine ⟨v :: vs, by rw [List.length_cons, hlen], ?_⟩
    rw [List.flatMap_cons, hv, hvs, Nat.mul_succ, Nat.add_comm, List.take_add]

theorem Trails.exists_str {n : Nat} {l : List UInt8} (h : Trails (n + 2) l) :
    ∃ v t, Stream.Proper v ∧ l = Packet.str v ++ t ∧ Trails n t := by
  obtain ⟨a, rfl⟩ := h
  cases a with
  | nil => exact ⟨[0], List.replicate n 0, by decide, rfl, [], rfl⟩
  | cons b a =>
    by_cases h0 : 0 ∈ a
    · obtain ⟨w, t, rfl, hw⟩ := List.eq_append_cons_of_mem h0
      refine ⟨b :: w, t ++ List.replicate (n + 2) 0, ⟨List.cons_ne_nil _ _, hw⟩, ?_, ?_⟩
      · simp [Packet.str]
      · exact Trails.mono (n := n + 2) ⟨t, rfl⟩ (Nat.le_add_right n 2)
    · refine ⟨b :: a, List.replicate (n + 1) 0, ⟨List.cons_ne_nil _ _, h0⟩, ?_, ?_⟩
      · rw [Packet.str, List.append_assoc]
        rfl
      · exact Trails.mono (n := n + 1) ⟨[], rfl⟩ (Nat.le_succ n)

theorem trails_streamOf {received : List UInt8} (h : 4 ≤ received.length)
    (hmax : received.length ≤ sockbufSize) : Trails 4 (streamOf received) :=
  Trails.mono (n := sockbufSize + 4 - received.length) ⟨received.drop 4, streamOf_eq h⟩ (by omega)

def countAt (i : Nat) (received : List UInt8) : Nat :=
  LittleEndian.ofBytes (((streamOf received).drop i).take 2)

structure ListFits (i width : Nat) (received : List UInt8) : Prop where
  ids : i + 2 + width * countAt i received ≤ sockbufSize
  names : ∃ names : List Str, names.length = countAt i received ∧
    (∀ v ∈ names, Stream.Proper v) ∧
      names.flatMap Packet.str <+:
        (streamOf received).drop (i + 2 + width * countAt i received)

theorem countAt_eq {i : Nat} {received : List UInt8} {count : UInt16}
    (h : Packet.u16 count <+: (streamOf received).drop i) : countAt i received = count.toNat := by
  rw [List.prefix_iff_eq_take, Packet.length_u16] at h
  rw [countAt, ← h]
  exact LittleEndian.ofBytes_toBytes count.toNat_lt

theorem listFits_of_encoded {α : Type} {bytes : α → List UInt8} {i width : Nat}
    {received : List UInt8} (hmax : received.length ≤ sockbufSize) {count : UInt16}
    {ids : List α} {names : List Str} (hwidth : ∀ v, (bytes v).length = width)
    (hids : ids.length = count.toNat) (hnames : names.length = count.toNat)
    (hproper : ∀ v ∈ names, Stream.Proper v) (hpos : i ≤ sockbufSize)
    (h : Packet.u16 count ++ (ids.flatMap bytes ++ names.flatMap Packet.str) <+:
      (streamOf received).drop i) : ListFits i width received := by
  have hlen : (ids.flatMap bytes).length = width * count.toNat := by
    rw [List.length_flatMap, ← hids]
    simp [hwidth, Nat.mul_comm]
  obtain ⟨hc, hrest⟩ := Stream.append_prefix_iff.mp h
  obtain ⟨hi, hn⟩ := Stream.append_prefix_iff.mp hrest
  rw [Packet.length_u16, List.drop_drop] at hi
  have hbound := hi.length_le
  rw [List.length_drop, length_streamOf hmax, hlen] at hbound
  have hc' := hc.length_le
  rw [Packet.length_u16, List.length_drop, length_streamOf hmax] at hc'
  constructor
  · rw [countAt_eq hc]
    omega
  · refine ⟨names, by rw [countAt_eq hc, hnames], hproper, ?_⟩
    rw [countAt_eq hc]
    rwa [Packet.length_u16, List.drop_drop, List.drop_drop, hlen, ← Nat.add_assoc] at hn

theorem ListFits.exists_list {α : Type} {bytes : α → List UInt8} {i width : Nat}
    {received : List UInt8} (h : ListFits i width received)
    (hmax : received.length ≤ sockbufSize)
    (hread : ∀ l : List UInt8, width ≤ l.length → ∃ v, bytes v = l.take width) :
    ∃ (count : UInt16) (ids : List α) (names : List Str),
      ids.length = count.toNat ∧ names.length = count.toNat ∧ (∀ v ∈ names, Stream.Proper v) ∧
        Packet.u16 count ++ (ids.flatMap bytes ++ names.flatMap Packet.str) <+:
          (streamOf received).drop i := by
  have hlen := length_streamOf hmax
  have hids := h.ids
  obtain ⟨names, hnames, hproper, hpre⟩ := h.names
  obtain ⟨count, hcount⟩ := exists_u16 (l := (streamOf received).drop i)
    (by rw [List.length_drop]; omega)
  have hc : Packet.u16 count <+: (streamOf received).drop i := hcount ▸ List.take_prefix _ _
  rw [countAt_eq hc] at hids hnames hpre
  obtain ⟨ids, hil, hids'⟩ := exists_flatMap hread count.toNat
    (l := (streamOf received).drop (i + 2)) (by rw [List.length_drop]; omega)
  refine ⟨count, ids, names, hil, hnames, hproper, ?_⟩
  refine Stream.append_prefix_iff.mpr ⟨hc, Stream.append_prefix_iff.mpr ⟨?_, ?_⟩⟩
  · rw [Packet.length_u16, List.drop_drop, hids']
    exact List.take_prefix _ _
  · rwa [Packet.length_u16, List.drop_drop, List.drop_drop, hids', List.length_take,
      List.length_drop, Nat.min_eq_left (by omega), ← Nat.add_assoc]

theorem Trails.exists_strs {l : List UInt8} (h : Trails 4 l) :
    ∃ v w, Stream.Proper v ∧ Stream.Proper w ∧ Packet.str v ++ Packet.str w <+: l := by
  obtain ⟨v, t, hv, rfl, ht⟩ := h.exists_str
  obtain ⟨w, t', hw, rfl, -⟩ := ht.exists_str
  exact ⟨v, w, hv, hw, t', List.append_assoc ..⟩

theorem Trails.exists_u32_str {l : List UInt8} (h : Trails 4 l) (hlen : 8 ≤ l.length) :
    ∃ n v, Stream.Proper v ∧ Packet.u32 n ++ Packet.str v <+: l := by
  obtain ⟨n, hn⟩ := exists_u32 (l := l) (by omega)
  obtain ⟨v, t, hv, heq, -⟩ := (h.drop (d := 4) (by omega)).exists_str
  refine ⟨n, v, hv, Stream.append_prefix_iff.mpr ⟨hn ▸ List.take_prefix 4 l, ?_⟩⟩
  rw [Packet.length_u32, heq]
  exact List.prefix_append _ t

theorem exists_encoded {received : List UInt8} {t : PacketType} (h : 4 ≤ received.length)
    (hmax : received.length ≤ sockbufSize) (hu : t ≠ .undefined)
    (hlist : t = .sLobbyRoomInfo → ListFits 0 2 received)
    (hlist' : t = .sLobbyUserInfo → ListFits 2 4 received) :
    ∃ p : Packet, p.type = t ∧ p.Decoded ∧ p.payload <+: streamOf received := by
  have hlen := length_streamOf hmax
  have htrail := trails_streamOf h hmax
  obtain ⟨v, w, hv, hw, two⟩ := htrail.exists_strs
  have one : Packet.str v <+: streamOf received := (List.prefix_append _ _).trans two
  have strs : ∀ u ∈ [v, w], Stream.Proper u := by simp [hv, hw]
  have str : ∀ u ∈ [v], Stream.Proper u := by simp [hv]
  obtain ⟨m, hm⟩ := exists_u16 (l := streamOf received) (by rw [hlen]; decide)
  have num16 : Packet.u16 m <+: streamOf received := hm ▸ List.take_prefix _ _
  obtain ⟨n, x, hx, numStr⟩ := htrail.exists_u32_str (by rw [hlen]; decide)
  have num32 : Packet.u32 n <+: streamOf received := (List.prefix_append _ _).trans numStr
  have strx : ∀ u ∈ [x], Stream.Proper u := by simp [hx]
  cases t with
  | undefined => contradiction
  | cServerExit | cRoomExit | cLobbyRoomInfo | sServerEnterNo | sLobbyExit | sUnicastNo =>
    exact ⟨PacketFactory.constructed _, PacketFactory.constructed_type _,
      ⟨by simp [PacketFactory.constructed, Packet.strings], trivial, trivial⟩, List.nil_prefix⟩
  | cServerEnter => exact ⟨.cServerEnter v, rfl, ⟨str, trivial, trivial⟩, one⟩
  | cBroadcast => exact ⟨.cBroadcast v, rfl, ⟨str, trivial, trivial⟩, one⟩
  | cMulticast => exact ⟨.cMulticast v, rfl, ⟨str, trivial, trivial⟩, one⟩
  | cRoomCreate => exact ⟨.cRoomCreate v, rfl, ⟨str, trivial, trivial⟩, one⟩
  | sRoomName => exact ⟨.sRoomName v, rfl, ⟨str, trivial, trivial⟩, one⟩
  | cUnicast => exact ⟨.cUnicast v w, rfl, ⟨strs, trivial, trivial⟩, two⟩
  | sBroadcast => exact ⟨.sBroadcast v w, rfl, ⟨strs, trivial, trivial⟩, two⟩
  | sMulticast => exact ⟨.sMulticast v w, rfl, ⟨strs, trivial, trivial⟩, two⟩
  | sUnicastOk => exact ⟨.sUnicastOk v w, rfl, ⟨strs, trivial, trivial⟩, two⟩
  | cRoomEnter => exact ⟨.cRoomEnter m, rfl, ⟨List.forall_mem_nil _, trivial, trivial⟩, num16⟩
  | sServerEnterOk =>
    exact ⟨.sServerEnterOk n, rfl, ⟨List.forall_mem_nil _, trivial, trivial⟩, num32⟩
  | sRoomExit => exact ⟨.sRoomExit n, rfl, ⟨List.forall_mem_nil _, trivial, trivial⟩, num32⟩
  | sLobbyEnter => exact ⟨.sLobbyEnter n x, rfl, ⟨strx, trivial, trivial⟩, numStr⟩
  | sRoomEnter => exact ⟨.sRoomEnter n x, rfl, ⟨strx, trivial, trivial⟩, numStr⟩
  | sLobbyRoomInfo =>
    obtain ⟨count, ids, names, hids, hnames, hproper, hpre⟩ :=
      (hlist rfl).exists_list hmax fun _ => exists_u16
    rw [← List.append_assoc] at hpre
    exact ⟨.sLobbyRoomInfo count ids names, rfl,
      ⟨hproper, hids.trans hnames.symm, hnames.symm⟩, hpre⟩
  | sLobbyUserInfo =>
    obtain ⟨count, ids, names, hids, hnames, hproper, hpre⟩ :=
      (hlist' rfl).exists_list hmax fun _ => exists_u32
    have hall : Packet.u16 m ++ (Packet.u16 count ++ (ids.flatMap Packet.u32 ++
        names.flatMap Packet.str)) <+: streamOf received :=
      Stream.append_prefix_iff.mpr ⟨num16, hpre⟩
    rw [← List.append_assoc, ← List.append_assoc] at hall
    exact ⟨.sLobbyUserInfo m count ids names, rfl,
      ⟨hproper, hids.trans hnames.symm, hnames.symm⟩, hall⟩

theorem exists_onRecv {received : List UInt8} {t : PacketType} (h : 4 ≤ received.length)
    (hmax : received.length ≤ sockbufSize) (ht : received.take 4 = Packet.u32 t.toInt32)
    (hu : t ≠ .undefined)
    (hlist : t = .sLobbyRoomInfo → ListFits 0 2 received)
    (hlist' : t = .sLobbyUserInfo → ListFits 2 4 received) :
    ∃ p, onRecv received = .ok p := by
  obtain ⟨p, rfl, hd, hpre⟩ := exists_encoded h hmax hu hlist hlist'
  exact ⟨p, (onRecv_ok_iff_streamOf h hmax hu).mpr ⟨ht, hd, hpre⟩⟩

theorem listFits_of_ok {received : List UInt8} {p : Packet} (h : 4 ≤ received.length)
    (hmax : received.length ≤ sockbufSize) (hok : onRecv received = .ok p) :
    (received.take 4 = Packet.u32 PacketType.sLobbyRoomInfo.toInt32 → ListFits 0 2 received) ∧
      (received.take 4 = Packet.u32 PacketType.sLobbyUserInfo.toInt32 →
        ListFits 2 4 received) := by
  refine ⟨fun ht => ?_, fun ht => ?_⟩
  · have htype := onRecv_type h hmax ht hok
    cases p with
    | sLobbyRoomInfo count ids names =>
      obtain ⟨-, hd, hpre⟩ := (onRecv_ok_iff_streamOf h hmax (by rw [htype]; decide)).mp hok
      rw [Packet.payload, List.append_assoc] at hpre
      exact listFits_of_encoded hmax Packet.length_u16 (hd.paired.trans hd.counts.symm)
        hd.counts.symm hd.proper (Nat.zero_le _) hpre
    | _ => cases htype
  · have htype := onRecv_type h hmax ht hok
    cases p with
    | sLobbyUserInfo rooms count ids names =>
      obtain ⟨-, hd, hpre⟩ := (onRecv_ok_iff_streamOf h hmax (by rw [htype]; decide)).mp hok
      rw [Packet.payload, List.append_assoc, List.append_assoc] at hpre
      have hrest := (Stream.append_prefix_iff.mp hpre).2
      exact listFits_of_encoded hmax Packet.length_u32 (hd.paired.trans hd.counts.symm)
        hd.counts.symm hd.proper (by decide) hrest
    | _ => cases htype

/-- Decoding stays inside `stream_` exactly when the header has arrived and a list packet's list is
not cut off by the end of the array. -/
theorem onRecv_in_bounds_iff {received : List UInt8} (hmax : received.length ≤ sockbufSize) :
    (∃ p, onRecv received = .ok p) ↔
      4 ≤ received.length ∧
        (received.take 4 = Packet.u32 PacketType.sLobbyRoomInfo.toInt32 →
          ListFits 0 2 received) ∧
        (received.take 4 = Packet.u32 PacketType.sLobbyUserInfo.toInt32 →
          ListFits 2 4 received) := by
  constructor
  · rintro ⟨p, hok⟩
    have h : 4 ≤ received.length := by
      by_contra hlt
      rw [onRecv_short (Nat.not_le.mp hlt)] at hok
      contradiction
    exact ⟨h, listFits_of_ok h hmax hok⟩
  · rintro ⟨h, hrooms, husers⟩
    by_cases hu : ∃ t, t ≠ .undefined ∧ received.take 4 = Packet.u32 (PacketType.toInt32 t)
    · obtain ⟨t, htu, ht⟩ := hu
      exact exists_onRecv h hmax ht htu (fun heq => hrooms (heq ▸ ht)) fun heq => husers (heq ▸ ht)
    · exact ⟨.undefined, onRecv_undefined h hmax fun t htu ht => hu ⟨t, htu, ht⟩⟩

theorem onRecv_in_bounds_chat : ∃ p, onRecv [113, 0, 0, 0, 104, 105, 0] = .ok p :=
  (onRecv_in_bounds_iff (by decide)).mpr
    ⟨by decide, fun ht => absurd ht (by decide), fun ht => absurd ht (by decide)⟩

/-- Three bytes leave the header subtraction below zero. -/
theorem not_onRecv_in_bounds :
    ¬ ∀ received : List UInt8, 1 ≤ received.length → received.length ≤ sockbufSize →
      ∃ p, onRecv received = .ok p := by
  intro h
  obtain ⟨p, hp⟩ := h [113, 0, 0] (by decide) (by decide)
  rw [onRecv_short (by decide)] at hp
  contradiction

end ChattingServer.V11
