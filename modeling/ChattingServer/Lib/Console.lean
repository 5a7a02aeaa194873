import Mathlib.Data.List.Induction

namespace ChattingServer.Lib

structure Coord where
  x : Nat
  y : Nat

def lineFeed : UInt8 := 10

/-- What a byte that is written does to the cursor of a screen.  It never takes the cursor up, and
all rows are alike. -/
structure Console where
  put : Coord → UInt8 → Coord
  put_lineFeed (c : Coord) : put c lineFeed = ⟨0, c.y + 1⟩
  le_put (c : Coord) (b : UInt8) : c.y ≤ (put c b).y
  put_down (c : Coord) (b : UInt8) (k : Nat) :
    put ⟨c.x, c.y + k⟩ b = ⟨(put c b).x, (put c b).y + k⟩

namespace Console

variable (console : Console)

def printf (c : Coord) (text : List UInt8) : Coord := text.foldl console.put c

theorem printf_append (c : Coord) (l r : List UInt8) :
    console.printf c (l ++ r) = console.printf (console.printf c l) r := List.foldl_append

theorem le_printf (c : Coord) (text : List UInt8) : c.y ≤ (console.printf c text).y := by
  induction text generalizing c with
  | nil => exact Nat.le_refl _
  | cons b text ih => exact Nat.le_trans (console.le_put c b) (ih _)

theorem printf_down (c : Coord) (text : List UInt8) (k : Nat) :
    console.printf ⟨c.x, c.y + k⟩ text =
      ⟨(console.printf c text).x, (console.printf c text).y + k⟩ := by
  induction text generalizing c with
  | nil => rfl
  | cons b text ih =>
    change console.printf (console.put ⟨c.x, c.y + k⟩ b) text = _
    rw [console.put_down, ih]
    rfl

def breaks (text : List UInt8) : Nat := (console.printf ⟨0, 0⟩ text).y

theorem printf_line (y : Nat) (text : List UInt8) :
    console.printf ⟨0, y⟩ (text ++ [lineFeed]) = ⟨0, y + console.breaks text + 1⟩ := by
  have hdown := console.printf_down ⟨0, 0⟩ text y
  rw [Nat.zero_add] at hdown
  rw [printf_append, hdown]
  change console.put _ lineFeed = _
  rw [console.put_lineFeed, breaks, Nat.add_comm y]

theorem breaks_pos_of_mem {text : List UInt8} (h : lineFeed ∈ text) : 0 < console.breaks text := by
  obtain ⟨l, r, rfl⟩ := List.append_of_mem h
  have hrest := console.le_printf ⟨0, 0 + console.breaks l + 1⟩ r
  rw [breaks, ← List.singleton_append, ← List.append_assoc, printf_append, printf_line]
  exact Nat.lt_of_lt_of_le (Nat.zero_lt_succ (0 + console.breaks l)) hrest

def bell : UInt8 := 7

def backspace : UInt8 := 8

def tab : UInt8 := 9

def carriageReturn : UInt8 := 13

/-- A screen of `width` columns: the five bytes that control the cursor, and every other byte in
a column of its own.  What reaches the right margin goes on in the next row. -/
def ofWidth (width : Nat) : Console where
  put c b :=
    if b = lineFeed then ⟨0, c.y + 1⟩
    else if b = bell then c
    else
      let x :=
        if b = backspace then c.x - 1
        else if b = tab then c.x - c.x % 8 + 8
        else if b = carriageReturn then 0
        else c.x + 1
      if x < width then ⟨x, c.y⟩ else ⟨0, c.y + 1⟩
  put_lineFeed _ := if_pos rfl
  le_put c b := by
    dsimp only
    generalize (if b = backspace then c.x - 1 else _ : Nat) = x
    split
    · exact Nat.le_succ _
    · split
      · exact Nat.le_refl _
      · split
        · exact Nat.le_refl _
        · exact Nat.le_succ _
  put_down c b k := by
    dsimp only
    generalize (if b = backspace then c.x - 1 else _ : Nat) = x
    split
    · rw [Nat.add_right_comm]
    · split
      · rfl
      · split
        · rfl
        · rw [Nat.add_right_comm]

theorem put_ofWidth (width : Nat) {b : UInt8} (hb : 32 ≤ b) (c : Coord) :
    (ofWidth width).put c b = if c.x + 1 < width then ⟨c.x + 1, c.y⟩ else ⟨0, c.y + 1⟩ := by
  have hne : ∀ a : UInt8, a < 32 → b ≠ a := by
    rintro a ha rfl
    exact absurd hb (UInt8.not_le.mpr ha)
  simp only [ofWidth, hne lineFeed (by decide), hne bell (by decide), hne backspace (by decide),
    hne tab (by decide), hne carriageReturn (by decide), if_false]

theorem printf_ofWidth {width : Nat} {text : List UInt8} (h : ∀ b ∈ text, 32 ≤ b) (c : Coord)
    (hc : c.x < width) :
    ((ofWidth width).printf c text).y = c.y ↔ c.x + text.length < width := by
  induction text generalizing c with
  | nil => exact iff_of_true rfl hc
  | cons b text ih =>
    have hput := put_ofWidth width (h b List.mem_cons_self) c
    have hrest := fun a ha => h a (List.mem_cons_of_mem _ ha)
    change ((ofWidth width).printf ((ofWidth width).put c b) text).y = c.y ↔ _
    rw [hput, List.length_cons]
    split
    · rename_i hx
      refine (ih hrest ⟨c.x + 1, c.y⟩ hx).trans ?_
      dsimp only
      omega
    · rename_i hx
      have := (ofWidth width).le_printf ⟨0, c.y + 1⟩ text
      refine iff_of_false ?_ ?_ <;> dsimp only at * <;> omega

theorem breaks_ofWidth {width : Nat} (hw : 0 < width) {text : List UInt8}
    (h : ∀ b ∈ text, 32 ≤ b) : (ofWidth width).breaks text = 0 ↔ text.length < width := by
  rw [breaks, printf_ofWidth h ⟨0, 0⟩ hw, Nat.zero_add]

end Console

end ChattingServer.Lib
