import Mathlib.Logic.Function.Basic
import ChattingServer.Lib.Refinement

/-! What the chat is for: members that are in the lobby or in one room, and that are told what
happens where they are. -/

namespace ChattingServer

open Lib

variable {I R N T : Type*}

inductive Note (I R N T : Type*)
  | welcome (i : I)
  | rooms (list : List (R × N))
  | came (i : I) (name : N)
  | title (name : N)
  | went (i : I)
  | nobody
  | whispered (name : N) (text : T)
  | said (name : N) (text : T)
  | announced (name : N) (text : T)

structure Member (I R N T : Type*) where
  name : N
  place : Option R
  heard : List (Note I R N T)

def Member.hear (m : Member I R N T) (notes : List (Note I R N T)) : Member I R N T :=
  { m with heard := m.heard ++ notes }

@[simp] theorem Member.hear_nil (m : Member I R N T) : m.hear [] = m := by
  simp [hear]

@[simp] theorem Member.hear_hear (m : Member I R N T) (notes notes' : List (Note I R N T)) :
    (m.hear notes).hear notes' = m.hear (notes ++ notes') := by
  simp [hear]

inductive Request (I R N T : Type*)
  | join (i : I)
  | leave (i : I)
  | login (i : I) (name : N)
  | list (i : I)
  | create (i : I) (name : N)
  | enter (i : I) (r : R)
  | exit (i : I)
  | whisper (i : I) (name : N) (text : T)
  | say (i : I) (text : T)
  | announce (i : I) (text : T)

@[ext]
structure Service (I R N T : Type*) where
  member : I → Option (Member I R N T)
  rooms : R → Option N

namespace Service

def empty : Service I R N T where
  member _ := none
  rooms _ := none

def place (t : Service I R N T) (i : I) : Option R := (t.member i).bind Member.place

def Lists (t : Service I R N T) (list : List (R × N)) : Prop :=
  list.Nodup ∧ ∀ r name, (r, name) ∈ list ↔ t.rooms r = some name

theorem Lists.congr {t t' : Service I R N T} {list : List (R × N)} (h : t.Lists list)
    (hrooms : t.rooms = t'.rooms) : t'.Lists list :=
  ⟨h.1, hrooms ▸ h.2⟩

def tell (t : Service I R N T) (notes : I → List (Note I R N T)) : Service I R N T :=
  { t with member := fun j => (t.member j).map (·.hear (notes j)) }

@[simp] theorem member_tell (t : Service I R N T) (notes : I → List (Note I R N T)) (j : I) :
    (t.tell notes).member j = (t.member j).map (·.hear (notes j)) := rfl

@[simp] theorem rooms_tell (t : Service I R N T) (notes : I → List (Note I R N T)) :
    (t.tell notes).rooms = t.rooms := rfl

@[simp] theorem place_tell (t : Service I R N T) (notes : I → List (Note I R N T)) (j : I) :
    (t.tell notes).place j = t.place j := by
  simp only [place, member_tell]
  cases t.member j <;> rfl

section

variable [DecidableEq I]

def put (t : Service I R N T) (i : I) (m : Option (Member I R N T)) : Service I R N T :=
  { t with member := Function.update t.member i m }

def modify (t : Service I R N T) (i : I) (f : Member I R N T → Member I R N T) :
    Service I R N T :=
  { t with member := fun j => if j = i then (t.member j).map f else t.member j }

def answer (t : Service I R N T) (i : I) (notes : List (Note I R N T)) : Service I R N T :=
  t.tell fun j => if j = i then notes else []

@[simp] theorem member_answer (t : Service I R N T) (i : I) (notes : List (Note I R N T)) (j : I) :
    (t.answer i notes).member j = (t.member j).map (·.hear (if j = i then notes else [])) := rfl

@[simp] theorem rooms_answer (t : Service I R N T) (i : I) (notes : List (Note I R N T)) :
    (t.answer i notes).rooms = t.rooms := rfl

@[simp] theorem member_modify (t : Service I R N T) (i : I)
    (f : Member I R N T → Member I R N T) (j : I) :
    (t.modify i f).member j = if j = i then (t.member j).map f else t.member j := rfl

@[simp] theorem rooms_modify (t : Service I R N T) (i : I)
    (f : Member I R N T → Member I R N T) : (t.modify i f).rooms = t.rooms := rfl

@[simp] theorem place_modify (t : Service I R N T) (i : I)
    (f : Member I R N T → Member I R N T) (j : I) :
    (t.modify i f).place j =
      if j = i then (t.member j).bind fun m => (f m).place else t.place j := by
  simp only [place, member_modify]
  split
  · exact Option.bind_map ..
  · rfl

@[simp] theorem member_put (t : Service I R N T) (i : I) (m : Option (Member I R N T)) (j : I) :
    (t.put i m).member j = if j = i then m else t.member j :=
  Function.update_apply ..

@[simp] theorem rooms_put (t : Service I R N T) (i : I) (m : Option (Member I R N T)) :
    (t.put i m).rooms = t.rooms := rfl

end

section

variable [DecidableEq R]

def tellRoom (t : Service I R N T) (r : R) (note : Note I R N T) : Service I R N T :=
  t.tell fun j => if t.place j = some r then [note] else []

def openRoom (t : Service I R N T) (r : R) (name : N) : Service I R N T :=
  { t with rooms := fun x => if x = r ∧ t.rooms r = none then some name else t.rooms x }

@[simp] theorem member_tellRoom (t : Service I R N T) (r : R) (note : Note I R N T) (j : I) :
    (t.tellRoom r note).member j =
      (t.member j).map (·.hear (if t.place j = some r then [note] else [])) := rfl

@[simp] theorem rooms_tellRoom (t : Service I R N T) (r : R) (note : Note I R N T) :
    (t.tellRoom r note).rooms = t.rooms := rfl

@[simp] theorem member_openRoom (t : Service I R N T) (r : R) (name : N) :
    (t.openRoom r name).member = t.member := rfl

end

variable [DecidableEq I] [DecidableEq R]

/-- What the service does.  Which ids it gives out is left open, and so is who of several members of
a name is whispered to. -/
inductive Step [Inhabited N] (t : Service I R N T) : Request I R N T → Service I R N T → Prop
  | join {i : I} (fresh : t.member i = none) :
    Step t (.join i) (t.put i (some ⟨default, none, []⟩))
  | leave {i : I} {m : Member I R N T} (member : t.member i = some m) :
    Step t (.leave i) ((t.put i none).tell fun j =>
      if m.place ≠ none ∧ t.place j = m.place then [.went i] else [])
  | login {i : I} {m : Member I R N T} (member : t.member i = some m) (name : N)
    {list : List (R × N)} (lists : t.Lists list) :
    Step t (.login i name)
      ((t.modify i ({ · with name })).answer i [.welcome i, .rooms list])
  | list {i : I} {m : Member I R N T} (member : t.member i = some m) {list : List (R × N)}
    (lists : t.Lists list) : Step t (.list i) (t.answer i [.rooms list])
  | create {i : I} {m : Member I R N T} (member : t.member i = some m) (r : R) (name : N)
    {list : List (R × N)} (lists : (t.openRoom r name).Lists list) :
    Step t (.create i name) ((t.openRoom r name).answer i [.rooms list])
  | enter {i : I} {m : Member I R N T} (member : t.member i = some m) {r : R} {name : N}
    (room : t.rooms r = some name) (outside : m.place = none ∨ m.place = some r) :
    Step t (.enter i r)
      (((t.modify i ({ · with place := some r })).tellRoom r (.came i m.name)).answer i
        [.title name])
  | exit {i : I} {m : Member I R N T} (member : t.member i = some m) {r : R}
    (inside : m.place = some r) :
    Step t (.exit i) ((t.tellRoom r (.went i)).modify i ({ · with place := none }))
  | whisper {i j : I} {m x : Member I R N T} (member : t.member i = some m)
    (found : t.member j = some x) (text : T) :
    Step t (.whisper i x.name text)
      ((t.answer i [.whispered m.name text]).answer j [.whispered m.name text])
  | nobody {i : I} {m : Member I R N T} (member : t.member i = some m) {name : N}
    (unknown : ∀ j x, t.member j = some x → x.name ≠ name) (text : T) :
    Step t (.whisper i name text) (t.answer i [.nobody])
  | say {i : I} {m : Member I R N T} (member : t.member i = some m) {r : R}
    (inside : m.place = some r) (text : T) :
    Step t (.say i text) (t.tellRoom r (.said m.name text))
  | announce {i : I} {m : Member I R N T} (member : t.member i = some m) (text : T) :
    Step t (.announce i text) (t.tell fun j =>
      if t.place j ≠ none then [.announced m.name text] else [])

end Service

end ChattingServer
