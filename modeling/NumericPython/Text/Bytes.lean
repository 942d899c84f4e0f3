set_option autoImplicit false

/-!
Texts measured in UTF-8 bytes. An offset counts bytes; cutting at an offset inside a character keeps
the whole character on the left side.
-/

namespace NumericPython.Text

def byteSize : List Char → Nat
  | [] => 0
  | c :: cs => c.utf8Size + byteSize cs

@[simp] theorem byteSize_nil : byteSize [] = 0 := rfl

@[simp] theorem byteSize_cons (c : Char) (cs : List Char) :
    byteSize (c :: cs) = c.utf8Size + byteSize cs := rfl

@[simp] theorem byteSize_append (xs ys : List Char) :
    byteSize (xs ++ ys) = byteSize xs + byteSize ys := by
  induction xs with
  | nil => simp
  | cons c cs ih => simp [ih, Nat.add_assoc]

def takeBytes : Nat → List Char → List Char
  | _, [] => []
  | n, c :: cs => if n = 0 then [] else c :: takeBytes (n - c.utf8Size) cs

def dropBytes : Nat → List Char → List Char
  | _, [] => []
  | n, c :: cs => if n = 0 then c :: cs else dropBytes (n - c.utf8Size) cs

@[simp] theorem takeBytes_zero (cs : List Char) : takeBytes 0 cs = [] := by
  cases cs <;> simp [takeBytes]

@[simp] theorem dropBytes_zero (cs : List Char) : dropBytes 0 cs = cs := by
  cases cs <;> simp [dropBytes]

theorem takeBytes_append_dropBytes (n : Nat) (cs : List Char) :
    takeBytes n cs ++ dropBytes n cs = cs := by
  induction cs generalizing n with
  | nil => rfl
  | cons c cs ih => by_cases h : n = 0 <;> simp [takeBytes, dropBytes, h, ih]

@[simp] theorem dropBytes_byteSize_append (xs ys : List Char) :
    dropBytes (byteSize xs) (xs ++ ys) = ys := by
  induction xs with
  | nil => simp
  | cons c cs ih =>
      have nonzero := Nat.ne_of_gt c.utf8Size_pos
      simp [dropBytes, nonzero, ih]

@[simp] theorem takeBytes_byteSize_append (xs ys : List Char) :
    takeBytes (byteSize xs) (xs ++ ys) = xs := by
  induction xs with
  | nil => simp
  | cons c cs ih =>
      have nonzero := Nat.ne_of_gt c.utf8Size_pos
      simp [takeBytes, nonzero, ih]

def slice (cs : List Char) (start stop : Nat) : List Char :=
  takeBytes (stop - start) (dropBytes start cs)

theorem slice_append (before word after : List Char) :
    slice (before ++ word ++ after) (byteSize before) (byteSize before + byteSize word) = word := by
  simp [slice, List.append_assoc]

def isBoundary : Nat → List Char → Bool
  | 0, _ => true
  | _ + 1, [] => false
  | n + 1, c :: cs => c.utf8Size ≤ n + 1 && isBoundary (n + 1 - c.utf8Size) cs

end NumericPython.Text
