import ChattingServer.Service.Service

namespace ChattingServer

open Lib

variable {I R N T : Type*}

def Note.shared : Note I R N T → Bool
  | .came _ _ | .went _ | .said _ _ | .announced _ _ => true
  | .welcome _ | .rooms _ | .title _ | .nobody | .whispered _ _ => false

def Request.takesAway [DecidableEq I] (i : I) : Request I R N T → Bool
  | .leave j | .exit j => i = j
  | _ => false

structure Member.Stayed (m : Member I R N T) (r : R) (news : List (Note I R N T))
    (m' : Member I R N T) : Prop where
  place : m'.place = some r
  heard : ∃ notes, m'.heard = m.heard ++ notes ∧ notes.filter Note.shared = news

theorem Member.stayed_hear {m m' : Member I R N T} {r : R} (hplace : m'.place = some r)
    (hheard : m'.heard = m.heard) {notes news : List (Note I R N T)}
    (hnews : notes.filter Note.shared = news) : m.Stayed r news (m'.hear notes) :=
  ⟨hplace, notes, by rw [hear, hheard], hnews⟩

theorem Member.Stayed.trans {m m' m'' : Member I R N T} {r : R} {news news' : List (Note I R N T)}
    (h : m.Stayed r news m') (h' : m'.Stayed r news' m'') : m.Stayed r (news ++ news') m'' := by
  obtain ⟨notes, hheard, rfl⟩ := h.heard
  obtain ⟨notes', hheard', rfl⟩ := h'.heard
  exact ⟨h'.place, notes ++ notes', by rw [hheard', hheard, List.append_assoc],
    List.filter_append ..⟩

namespace Service

theorem place_of_member {t : Service I R N T} {i : I} {m : Member I R N T}
    (h : t.member i = some m) : t.place i = m.place := by
  rw [place, h]
  rfl

theorem stayed_tell {t : Service I R N T} {i : I} {m m' : Member I R N T} {r : R}
    (hm : t.member i = some m') (hr : m'.place = some r) (hheard : m'.heard = m.heard)
    {notes : I → List (Note I R N T)} {news : List (Note I R N T)}
    (hnews : (notes i).filter Note.shared = news) :
    ∃ m'', (t.tell notes).member i = some m'' ∧ m.Stayed r news m'' :=
  ⟨m'.hear (notes i), by rw [member_tell, hm, Option.map_some],
    Member.stayed_hear hr hheard hnews⟩

theorem stayed_answer [DecidableEq I] {t : Service I R N T} {i : I} {m m' : Member I R N T} {r : R}
    (hm : t.member i = some m') (hr : m'.place = some r) (hheard : m'.heard = m.heard) (j : I)
    (notes : List (Note I R N T)) (hnotes : notes.filter Note.shared = []) :
    ∃ m'', (t.answer j notes).member i = some m'' ∧ m.Stayed r [] m'' := by
  refine stayed_tell hm hr hheard ?_
  split
  · exact hnotes
  · rfl

theorem stayed_tellRoom [DecidableEq R] {t : Service I R N T} {i : I} {m m' : Member I R N T}
    {r : R} (hm : t.member i = some m') (hr : m'.place = some r) (hheard : m'.heard = m.heard)
    (r' : R) (note : Note I R N T) (hnote : note.shared = true) :
    ∃ m'', (t.tellRoom r' note).member i = some m'' ∧
      m.Stayed r (if r = r' then [note] else []) m'' := by
  refine stayed_tell hm hr hheard ?_
  simp only [place_of_member hm, hr, Option.some_inj]
  split
  · simp [hnote]
  · rfl

variable [DecidableEq I] [DecidableEq R]

theorem Step.stayed [Inhabited N] {t t' : Service I R N T} {q : Request I R N T} (h : t.Step q t')
    (r : R) : ∃ news, ∀ i m, t.member i = some m → m.place = some r → q.takesAway i = false →
      ∃ m', t'.member i = some m' ∧ m.Stayed r news m' := by
  cases h with
  | @join j fresh =>
    refine ⟨[], fun i m hm hr _ => ⟨m, ?_, hr, [], (List.append_nil _).symm, rfl⟩⟩
    have hne : i ≠ j := by
      rintro rfl
      rw [fresh] at hm
      contradiction
    rw [member_put, if_neg hne, hm]
  | @leave j x member =>
    refine ⟨if x.place = some r then [.went j] else [], fun i m hm hr haway => ?_⟩
    have hput : (t.put j none).member i = some m := by
      rw [member_put, if_neg (of_decide_eq_false haway), hm]
    refine stayed_tell hput hr rfl ?_
    simp only [place_of_member hm, hr]
    by_cases hx : x.place = some r
    · simp [hx, Note.shared]
    · simp [hx, Ne.symm hx]
  | @login j x member name list lists =>
    refine ⟨[], fun i m hm hr _ => ?_⟩
    have hmember : (t.modify j ({ · with name })).member i =
        some (if i = j then { m with name } else m) := by
      rw [member_modify, hm]
      split <;> rfl
    exact stayed_answer hmember (by split <;> exact hr) (by split <;> rfl) j _ rfl
  | list member lists => exact ⟨[], fun i m hm hr _ => stayed_answer hm hr rfl _ _ rfl⟩
  | create member x name lists => exact ⟨[], fun i m hm hr _ => stayed_answer hm hr rfl _ _ rfl⟩
  | @enter j x member r' name room outside =>
    refine ⟨if r = r' then [.came j x.name] else [], fun i m hm hr _ => ?_⟩
    have hmoved : ∃ m₀, (t.modify j ({ · with place := some r' })).member i = some m₀ ∧
        m₀.place = some r ∧ m₀.heard = m.heard := by
      by_cases hi : i = j
      · subst hi
        obtain rfl := Option.some.inj (hm.symm.trans member)
        rcases outside with hnone | hsome
        · rw [hr] at hnone
          contradiction
        · refine ⟨{ m with place := some r' }, ?_, hsome.symm.trans hr, rfl⟩
          rw [member_modify, if_pos rfl, hm, Option.map_some]
      · exact ⟨m, by rw [member_modify, if_neg hi, hm], hr, rfl⟩
    obtain ⟨m₀, hm₀, hr₀, hheard⟩ := hmoved
    obtain ⟨m', hm', hstayed⟩ := stayed_tellRoom hm₀ hr₀ hheard r' (.came j x.name) rfl
    obtain ⟨m'', hm'', hstayed'⟩ := stayed_answer hm' hstayed.place rfl j [.title name] rfl
    have htrans := hstayed.trans hstayed'
    rw [List.append_nil] at htrans
    exact ⟨m'', hm'', htrans⟩
  | @exit j x member r' inside =>
    refine ⟨if r = r' then [.went j] else [], fun i m hm hr haway => ?_⟩
    rw [member_modify, if_neg (of_decide_eq_false haway)]
    exact stayed_tellRoom hm hr rfl r' _ rfl
  | whisper member found text =>
    refine ⟨[], fun i m hm hr _ => ?_⟩
    obtain ⟨m', hm', hstayed⟩ := stayed_answer hm hr rfl _ [.whispered _ text] rfl
    obtain ⟨m'', hm'', hstayed'⟩ := stayed_answer hm' hstayed.place rfl _ [.whispered _ text] rfl
    exact ⟨m'', hm'', hstayed.trans hstayed'⟩
  | nobody member unknown text => exact ⟨[], fun i m hm hr _ => stayed_answer hm hr rfl _ _ rfl⟩
  | @say j x member r' inside text =>
    exact ⟨_, fun i m hm hr _ => stayed_tellRoom hm hr rfl r' _ rfl⟩
  | @announce j x member text =>
    refine ⟨[.announced x.name text], fun i m hm hr _ => stayed_tell hm hr rfl ?_⟩
    simp [place_of_member hm, hr, Note.shared]

theorem stayed_of_runs [Inhabited N] {t t' : Service I R N T} {qs : List (Request I R N T)}
    (h : Runs Step t qs t') (r : R) : ∃ news, ∀ i m, t.member i = some m → m.place = some r →
      (∀ q ∈ qs, q.takesAway i = false) → ∃ m', t'.member i = some m' ∧ m.Stayed r news m' := by
  induction h with
  | nil =>
    exact ⟨[], fun i m hm hr _ => ⟨m, hm, hr, [], (List.append_nil _).symm, rfl⟩⟩
  | @cons t t' t'' q qs hstep _ ih =>
    obtain ⟨news, hnews⟩ := hstep.stayed r
    obtain ⟨news', hnews'⟩ := ih
    refine ⟨news ++ news', fun i m hm hr hstays => ?_⟩
    obtain ⟨hq, hqs⟩ := List.forall_mem_cons.mp hstays
    obtain ⟨m', hm', hstayed⟩ := hnews i m hm hr hq
    obtain ⟨m'', hm'', hstayed'⟩ := hnews' i m' hm' hstayed.place hqs
    exact ⟨m'', hm'', hstayed.trans hstayed'⟩

end Service

end ChattingServer
