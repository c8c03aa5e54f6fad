import EarlyBoot.Bytes.Splice

/-!
# `EarlyBoot.Proofs.Bytes.Joined`: items written one behind the other

A writer adds the bytes of one item after the other to those that it has. The
result is what it had, and behind that the items `joined`. Items of the same width
are found again by their index, which is how a cursor reads them back.

Main statements:

* `foldl_append_eq` : a writer in a loop joins its items;
* `read_joined` : an item is read at the place that its index says.
-/

set_option autoImplicit false

namespace EarlyBoot

variable {α : Type}

namespace Bytes

/-- The bytes of items, one behind the other. -/
def joined (bytesOf : α → ByteArray) : List α → ByteArray
  | []         => ByteArray.empty
  | a :: items => bytesOf a ++ joined bytesOf items

/-- The bytes of two lists in a row are those of the first and then those of the second. -/
theorem joined_append (bytesOf : α → ByteArray) (front back : List α) :
    joined bytesOf (front ++ back) = joined bytesOf front ++ joined bytesOf back := by
  induction front with
  | nil => rw [List.nil_append, joined, ByteArray.empty_append]
  | cons a front ih => rw [List.cons_append, joined, joined, ih, ByteArray.append_assoc]

/-- A writer that appends item by item leaves `joined` of its items behind what it had. -/
theorem foldl_append_eq (bytesOf : α → ByteArray) (items : List α) (acc : ByteArray) :
    items.foldl (fun bytes a => bytes ++ bytesOf a) acc = acc ++ joined bytesOf items := by
  induction items generalizing acc with
  | nil => rw [List.foldl_nil, joined, ByteArray.append_empty]
  | cons a items ih => rw [List.foldl_cons, ih, joined, ByteArray.append_assoc]

/-- Items of one width take that width each. -/
theorem size_joined {bytesOf : α → ByteArray} {width : Nat} {items : List α}
    (h : ∀ a ∈ items, (bytesOf a).size = width) :
    (joined bytesOf items).size = items.length * width := by
  induction items with
  | nil => simp [joined]
  | cons a items ih =>
      have hhead : (bytesOf a).size = width := h a List.mem_cons_self
      have htail := ih fun b hb => h b (List.mem_cons_of_mem a hb)
      rw [joined, ByteArray.size_append, hhead, htail, List.length_cons, Nat.succ_mul, Nat.add_comm]

/-- The string of some items, cut at item `i`: the items in front of it, the item, the items behind
it. -/
theorem joined_eq_append (bytesOf : α → ByteArray) {items : List α} {i : Nat}
    (hi : i < items.length) :
    joined bytesOf items =
      joined bytesOf (items.take i) ++
        (bytesOf items[i] ++ joined bytesOf (items.drop (i + 1))) := by
  have hsplit : items = items.take i ++ items[i] :: items.drop (i + 1) := by
    rw [List.getElem_cons_drop, List.take_append_drop]
  calc joined bytesOf items
      = joined bytesOf (items.take i ++ items[i] :: items.drop (i + 1)) := by rw [← hsplit]
    _ = joined bytesOf (items.take i) ++
          (bytesOf items[i] ++ joined bytesOf (items.drop (i + 1))) := by
        rw [joined_append, joined]

/-- Take a reader that looks past a string as if it were not there, and items of one width. Then the
reader finds item `i` of `joined` at `i` times that width, behind any front. -/
theorem read_joined {β : Type} {read : ByteArray → Nat → Option β}
    (hread : ∀ (a b : ByteArray) (offset : Nat), a.size ≤ offset →
      read (a ++ b) offset = read b (offset - a.size))
    {bytesOf : α → ByteArray} {width : Nat} {items : List α}
    (hwidth : ∀ a ∈ items, (bytesOf a).size = width) (front : ByteArray) {i : Nat}
    (hi : i < items.length) :
    read (front ++ joined bytesOf items) (front.size + i * width) =
      read (bytesOf items[i] ++ joined bytesOf (items.drop (i + 1))) 0 := by
  -- The items in front of item `i` take `i` widths, which the reader looks past.
  have hbefore : (joined bytesOf (items.take i)).size = i * width := by
    rw [size_joined fun a ha => hwidth a (List.mem_of_mem_take ha),
      List.length_take_of_le (Nat.le_of_lt hi)]
  rw [hread _ _ _ (Nat.le_add_right _ _), Nat.add_sub_cancel_left, joined_eq_append bytesOf hi,
    hread _ _ _ (Nat.le_of_eq hbefore), hbefore, Nat.sub_self]

/-- The middle one of three strings is cut out where it starts. -/
theorem extract_append_middle (a b c : ByteArray) :
    (a ++ (b ++ c)).extract a.size (a.size + b.size) = b := by
  have hcut := ByteArray.extract_append_size_add (a := a) (b := b ++ c) (i := 0) (j := b.size)
  rw [Nat.add_zero] at hcut
  rw [hcut, ByteArray.extract_append_eq_left rfl]

end Bytes

end EarlyBoot
