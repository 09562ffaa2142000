namespace StructEdit

abbrev Text := List Char

inductive Encoding where
  | utf8
  | utf16
deriving DecidableEq, Repr

/-- Bytes or code units of one character; those above the basic plane take a surrogate pair. -/
def Encoding.size : Encoding → Char → Nat
  | .utf8, c => c.utf8Size
  | .utf16, c => if c.toNat < 0x10000 then 1 else 2

theorem Encoding.size_pos (e : Encoding) (c : Char) : 0 < e.size c := by
  cases e with
  | utf8 => exact c.utf8Size_pos
  | utf16 => simp only [Encoding.size]; split <;> decide

namespace Text

def size (e : Encoding) : Text → Nat
  | [] => 0
  | c :: t => e.size c + size e t

@[simp] theorem size_nil (e : Encoding) : size e [] = 0 := rfl

@[simp] theorem size_cons (e : Encoding) (c : Char) (t : Text) :
    size e (c :: t) = e.size c + size e t := rfl

@[simp] theorem size_append (e : Encoding) (s t : Text) :
    size e (s ++ t) = size e s + size e t := by
  induction s with
  | nil => simp
  | cons c s ih => simp [ih, Nat.add_assoc]

/-- The shortest prefix that is at least `n` long, or the whole text if it is shorter than that.
-/
def upTo (e : Encoding) : Text → Nat → Text
  | [], _ => []
  | c :: t, n => if n = 0 then [] else c :: upTo e t (n - e.size c)

@[simp] theorem upTo_nil (e : Encoding) (n : Nat) : upTo e [] n = [] := rfl

@[simp] theorem upTo_zero (e : Encoding) (t : Text) : upTo e t 0 = [] := by
  cases t <;> simp [upTo]

theorem upTo_isPrefix (e : Encoding) (t : Text) (n : Nat) : upTo e t n <+: t := by
  induction t generalizing n with
  | nil => simp
  | cons c t ih =>
    rw [upTo]
    split
    · exact List.nil_prefix
    · exact List.cons_prefix_cons.mpr ⟨rfl, ih _⟩

theorem upTo_append (e : Encoding) (s t : Text) : upTo e (s ++ t) (size e s) = s := by
  induction s with
  | nil => simp
  | cons c s ih =>
    have := e.size_pos c
    simp only [List.cons_append, upTo, size_cons]
    rw [if_neg (by omega), Nat.add_sub_cancel_left, ih]

/-- The offset `n` of `e` counted by `f`; one inside a character moves to its end. -/
def convert (e f : Encoding) (t : Text) (n : Nat) : Nat :=
  size f (upTo e t n) + (n - size e t)

/-- The text before and after the byte offset `n`, unless it lies past the end or inside a
character. -/
def cut? : Text → Nat → Option (Text × Text)
  | t, 0 => some ([], t)
  | [], _ + 1 => none
  | c :: t, n + 1 =>
    if c.utf8Size ≤ n + 1 then
      (cut? t (n + 1 - c.utf8Size)).map fun (before, after) => (c :: before, after)
    else none

theorem cut?_append (s t : Text) : cut? (s ++ t) (size .utf8 s) = some (s, t) := by
  induction s with
  | nil => rw [List.nil_append, size_nil]; cases t <;> rfl
  | cons c s ih =>
    have hc : 0 < c.utf8Size := c.utf8Size_pos
    obtain ⟨k, hk⟩ : ∃ k, size .utf8 (c :: s) = k + 1 :=
      ⟨_, (Nat.succ_pred_eq_of_pos (by simp only [size_cons, Encoding.size]; omega)).symm⟩
    have hs : k + 1 - c.utf8Size = size .utf8 s := by
      simp only [size_cons, Encoding.size] at hk; omega
    have hle : c.utf8Size ≤ k + 1 := by
      simp only [size_cons, Encoding.size] at hk; omega
    simp only [hk, List.cons_append, cut?, hle, if_true, hs, ih, Option.map_some]

theorem eq_append_of_cut? {t : Text} {n : Nat} {s r : Text} (h : cut? t n = some (s, r)) :
    t = s ++ r ∧ n = size .utf8 s := by
  fun_induction cut? t n generalizing s r with
  | case1 t => simp only [Option.some.injEq, Prod.mk.injEq] at h; simp [← h.1, ← h.2]
  | case2 => simp at h
  | case3 c t n hle ih =>
    obtain ⟨⟨s', r'⟩, hcut, heq⟩ := Option.map_eq_some_iff.mp h
    simp only [Prod.mk.injEq] at heq
    obtain ⟨rfl, rfl⟩ := heq
    obtain ⟨rfl, hn⟩ := ih hcut
    simp only [List.cons_append, size_cons, Encoding.size, true_and]
    omega
  | case4 => simp at h

def slice? (t : Text) (start stop : Nat) : Option Text :=
  if start ≤ stop then
    (cut? t start).bind fun (_, rest) => (cut? rest (stop - start)).map Prod.fst
  else none

end Text

end StructEdit
