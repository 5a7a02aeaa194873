import Mathlib.Data.List.Basic

universe u

namespace ChattingServer.Lib

structure Istream (α : Type u) where
  rest : List α
  eofbit : Bool
  failbit : Bool

namespace Istream

variable {α : Type u}

def new (text : List α) : Istream α := ⟨text, false, false⟩

def good (i : Istream α) : Bool := !i.eofbit && !i.failbit

def eof (i : Istream α) : Bool := i.eofbit

def get (i : Istream α) : Option α × Istream α :=
  if i.good then
    match i.rest with
    | [] => (none, { i with eofbit := true, failbit := true })
    | c :: rest => (some c, { i with rest })
  else (none, { i with failbit := true })

def peek (i : Istream α) : Option α × Istream α :=
  if i.good then
    match i.rest with
    | [] => (none, { i with eofbit := true })
    | c :: _ => (some c, i)
  else (none, { i with failbit := true })

@[simp] theorem good_new (text : List α) : (new text).good = true := rfl

@[simp] theorem eof_new (text : List α) : (new text).eof = false := rfl

@[simp] theorem get_new_cons (c : α) (text : List α) : (new (c :: text)).get = (some c, new text) :=
  rfl

@[simp] theorem get_new_nil : (new ([] : List α)).get = (none, ⟨[], true, true⟩) := rfl

@[simp] theorem peek_new_cons (c : α) (text : List α) :
    (new (c :: text)).peek = (some c, new (c :: text)) :=
  rfl

@[simp] theorem peek_new_nil : (new ([] : List α)).peek = (none, ⟨[], true, false⟩) := rfl

@[simp] theorem good_of_eofbit (text : List α) (failbit : Bool) :
    (⟨text, true, failbit⟩ : Istream α).good = false :=
  rfl

end Istream

end ChattingServer.Lib
