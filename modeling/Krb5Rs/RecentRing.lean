import Mathlib.Data.List.GetD
import Mathlib.Data.List.Rotate

/-!
# A ring that grows and shrinks while it turns

A list of at most `keep` items with the place the next one goes to. While it is
short, room is made at that place; when it is full, the item there is overwritten;
when it is too long, the newest `keep` items are moved to its start first. Read
backwards from that place, around the start, it is a queue that keeps its newest
items, whatever `keep` is at each push.
-/

namespace RecentRing

variable {α : Type} {ring : List α} {next keep at' : Nat}

def view (ring : List α) (next : Nat) : List α := (ring.rotate next).reverse

/-- Where the `i`-th of the newest `keep` items lies, oldest first. -/
def keptAt (length next keep i : Nat) : Nat := (i + length + next - keep) % length

/-- Room for one more item among `keep`. -/
def resize (blank : α) (keep : Nat) (ring : List α) (next : Nat) : List α × Nat :=
  if ring.length < keep then (ring.insertIdx (min next ring.length) blank, next)
  else if keep < ring.length then
    ((List.range keep).map fun i => ring.getD (keptAt ring.length next keep i) blank, 0)
  else (ring, next)

def place (ring : List α) (next : Nat) : Nat := if ring.length < next + 1 then 0 else next

def turn (keep at' : Nat) : Nat := if at' + 1 = keep then 0 else at' + 1

def write (keep : Nat) (ring : List α) (next : Nat) (item : α) : List α × Nat :=
  (ring.set (place ring next) item, turn keep (place ring next))

def push (blank : α) (keep : Nat) (ring : List α) (next : Nat) (item : α) : List α × Nat :=
  write keep (resize blank keep ring next).1 (resize blank keep ring next).2 item

theorem view_length (ring : List α) (next : Nat) : (view ring next).length = ring.length := by
  rw [view, List.length_reverse, List.length_rotate]

theorem view_eq (h : next ≤ ring.length) : view ring next = (ring.take next).reverse ++ (ring.drop next).reverse := by
  rw [view, List.rotate_eq_drop_append_take h, List.reverse_append]

theorem view_start (ring : List α) : view ring 0 = ring.reverse := by rw [view, List.rotate_zero]

theorem view_end (ring : List α) : view ring ring.length = view ring 0 := by
  rw [view, List.rotate_length, view_start]

theorem view_append (before after : List α) :
    view (before ++ after) before.length = before.reverse ++ after.reverse := by
  rw [view_eq (by rw [List.length_append]; omega), List.take_left, List.drop_left]

theorem view_set (h : at' < ring.length) (x : α) :
    view (ring.set at' x) (at' + 1) = x :: (view ring at').take (ring.length - 1) := by
  obtain ⟨before, y, after, rfl, rfl⟩ : ∃ before y after, ring = before ++ y :: after ∧ before.length = at' :=
    ⟨ring.take at', ring.get ⟨at', h⟩, ring.drop (at' + 1), by simp, by simp; omega⟩
  have hset : (before ++ y :: after).set before.length x = (before ++ [x]) ++ after := by simp
  have hlen : before.length + 1 = (before ++ [x]).length := by simp
  rw [hset, hlen, view_append, view_append, List.reverse_cons, ← List.append_assoc, List.take_left' (by simp),
    List.reverse_append]
  rfl

theorem place_lt (hpos : 0 < ring.length) (next : Nat) : place ring next < ring.length := by
  unfold place
  split <;> omega

theorem view_place (h : next ≤ ring.length) : view ring (place ring next) = view ring next := by
  unfold place
  split
  · have hend : next = ring.length := by omega
    rw [hend, view_end]
  · rfl

theorem view_turn (h : at' < ring.length) (hkeep : ring.length ≤ keep) :
    view ring (turn keep at') = view ring (at' + 1) := by
  unfold turn
  split
  · have hend : at' + 1 = ring.length := by omega
    rw [hend, view_end]
  · rfl

theorem turn_le (h : at' < ring.length) (keep : Nat) : turn keep at' ≤ ring.length := by
  unfold turn
  split <;> omega

theorem view_write (hpos : 0 < ring.length) (hnext : next ≤ ring.length) (hkeep : ring.length ≤ keep) (x : α) :
    view (write keep ring next x).1 (write keep ring next x).2 = x :: (view ring next).take (ring.length - 1) := by
  have hplace := place_lt hpos next
  rw [write, view_turn (by rwa [List.length_set]) (by rwa [List.length_set]), view_set hplace, view_place hnext]

/-! ## Room for one more -/

theorem insertIdx_append (before after : List α) (blank : α) :
    (before ++ after).insertIdx before.length blank = before ++ blank :: after := by
  induction before with
  | nil => rfl
  | cons x before ih => rw [List.cons_append, List.length_cons, List.insertIdx_succ_cons, ih, List.cons_append]

theorem view_insert (h : next ≤ ring.length) (blank : α) :
    view (ring.insertIdx next blank) next = view ring next ++ [blank] := by
  obtain ⟨before, after, rfl, rfl⟩ : ∃ before after, ring = before ++ after ∧ before.length = next :=
    ⟨ring.take next, ring.drop next, (List.take_append_drop ..).symm, List.length_take_of_le h⟩
  rw [insertIdx_append, view_append, view_append, List.reverse_cons, List.append_assoc]

theorem map_keptAt (h : keep ≤ ring.length) (blank : α) :
    ((List.range keep).map fun i => ring.getD (keptAt ring.length next keep i) blank) =
      ((view ring next).take keep).reverse := by
  rw [view, List.take_reverse, List.reverse_reverse, List.length_rotate]
  apply List.ext_getElem
  · simp; omega
  · intro i hi hi'
    simp only [List.length_map, List.length_range] at hi
    have hpos : 0 < ring.length := by omega
    have hlt : keptAt ring.length next keep i < ring.length := Nat.mod_lt _ hpos
    rw [List.getElem_map, List.getElem_range, List.getElem_drop, List.getElem_rotate, List.getD_eq_getElem _ _ hlt]
    congr 1
    rw [keptAt]
    congr 1
    omega

theorem resize_length (blank : α) (keep : Nat) (ring : List α) (next : Nat) :
    (resize blank keep ring next).1.length = min (ring.length + 1) keep := by
  unfold resize
  split_ifs
  · rw [List.length_insertIdx_of_le_length (Nat.min_le_right _ _)]
    omega
  · rw [List.length_map, List.length_range]
    omega
  · dsimp only
    omega

theorem view_resize (blank : α) (keep : Nat) (h : next ≤ ring.length) :
    (resize blank keep ring next).2 ≤ (resize blank keep ring next).1.length ∧
      view (resize blank keep ring next).1 (resize blank keep ring next).2 =
        (view ring next).take keep ++ if ring.length < keep then [blank] else [] := by
  rw [resize_length]
  unfold resize
  split
  case isTrue hshort =>
    rw [Nat.min_eq_left h, view_insert h, List.take_of_length_le (by rw [view_length]; omega)]
    exact ⟨by omega, rfl⟩
  case isFalse hlong =>
    rw [List.append_nil]
    split
    case isTrue hmore =>
      rw [view_start, map_keptAt (Nat.le_of_lt hmore), List.reverse_reverse]
      exact ⟨Nat.zero_le _, rfl⟩
    case isFalse hfull =>
      rw [List.take_of_length_le (by rw [view_length]; omega)]
      exact ⟨by dsimp only; omega, rfl⟩

/-! ## Pushes -/

/-- The place of the next item lies in the ring or right behind it. In an empty ring it does not matter. -/
def Placed (ring : List α) (next : Nat) : Prop := ring = [] ∨ next ≤ ring.length

theorem push_nil (blank : α) (hkeep : 0 < keep) (next : Nat) (x : α) :
    push blank keep [] next x = push blank keep [] 0 x := by
  have hresize (n : Nat) : resize blank keep [] n = ([blank], n) := by
    rw [resize, if_pos (by exact hkeep), List.length_nil, Nat.min_zero]
    rfl
  have hplace (n : Nat) : place [blank] n = 0 := by
    unfold place
    split
    · rfl
    · simp at *; omega
  rw [push, push, hresize, hresize, write, write, hplace, hplace]

theorem view_push_of_le (blank : α) (hkeep : 0 < keep) (h : next ≤ ring.length) (x : α) :
    view (push blank keep ring next x).1 (push blank keep ring next x).2 = (x :: view ring next).take keep := by
  obtain ⟨hnext, hview⟩ := view_resize blank keep h
  have hlen := resize_length blank keep ring next
  rw [push, view_write (by omega) hnext (by omega), hview, hlen]
  obtain ⟨k, rfl⟩ : ∃ k, keep = k + 1 := ⟨keep - 1, by omega⟩
  rw [List.take_succ_cons]
  split
  case isTrue hshort =>
    -- the blank goes again
    have hall : ∀ n, ring.length ≤ n → (view ring next).take n = view ring next := fun n hn =>
      List.take_of_length_le (by rwa [view_length])
    rw [hall (k + 1) (by omega), hall k (by omega), List.take_left' (by rw [view_length]; omega)]
  case isFalse hlong =>
    rw [List.append_nil, List.take_take]
    congr 2
    omega

variable (blank : α) {keep : Nat} (hkeep : 0 < keep) {ring : List α} {next : Nat}
include hkeep

theorem view_push (h : Placed ring next) (x : α) :
    view (push blank keep ring next x).1 (push blank keep ring next x).2 = (x :: view ring next).take keep := by
  rcases h with rfl | h
  · rw [push_nil blank hkeep]
    exact view_push_of_le blank hkeep (Nat.zero_le _) x
  · exact view_push_of_le blank hkeep h x

theorem push_next_le (ring : List α) (next : Nat) (x : α) :
    (push blank keep ring next x).2 ≤ (push blank keep ring next x).1.length := by
  have hpos : 0 < (resize blank keep ring next).1.length := by
    rw [resize_length]
    omega
  rw [push, write, List.length_set]
  exact turn_le (place_lt hpos _) keep

end RecentRing
