import Mathlib.Data.List.Basic

/-! # Segments of a list

The elements of a list from one position up to another, for streams of which one reader has come to
one position and another reader to a later one.
-/

namespace EasyUds.Lib

universe u v

variable {α : Type u} {β : Type v}

def segment (xs : List α) (first last : Nat) : List α := (xs.drop first).take (last - first)

theorem segment_nil (xs : List α) (first : Nat) : segment xs first first = [] := by
  rw [segment, Nat.sub_self, List.take_zero]

theorem segment_to_end (xs : List α) (first : Nat) : segment xs first xs.length = xs.drop first :=
  List.take_of_length_le (List.length_drop ▸ Nat.le_refl _)

theorem segment_length {xs : List α} {first last : Nat} (hLast : last ≤ xs.length) :
    (segment xs first last).length = last - first := by
  rw [segment, List.length_take, List.length_drop]
  omega

theorem segment_append {xs : List α} {first middle last : Nat} (hFirst : first ≤ middle) (hLast : middle ≤ last) :
    segment xs first last = segment xs first middle ++ segment xs middle last := by
  rw [segment, segment, segment, show last - first = middle - first + (last - middle) by omega, List.take_add,
    List.drop_drop, show first + (middle - first) = middle by omega]

theorem segment_take (xs : List α) {first last taken : Nat} (h : first + taken ≤ last) :
    (segment xs first last).take taken = segment xs first (first + taken) := by
  rw [segment, segment, List.take_take]
  congr 1
  omega

theorem segment_drop (xs : List α) (first last dropped : Nat) :
    (segment xs first last).drop dropped = segment xs (first + dropped) last := by
  rw [segment, segment, List.drop_take, List.drop_drop]
  congr 1
  omega

theorem segment_behind (front rest : List α) (count : Nat) :
    segment (front ++ rest) front.length (front.length + count) = rest.take count := by
  rw [segment, List.drop_left, Nat.add_sub_cancel_left]

end EasyUds.Lib
