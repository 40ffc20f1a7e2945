/-!
# Largest first

Delimiters and operators that begin alike are told apart by trying the longer ones first. The
order is stable: entries of the same size keep their places.

Results:

* `mem_largestFirst`: ranking keeps the entries.
* `pairwise_largestFirst`: sizes never grow along a ranked list.
* `exists_of_findSome?_largestFirst`: the first entry at which something is found is a largest one.
-/

namespace TemplateTokens

variable {α : Type} (size : α → Nat)

/-- Puts `a` in front of the first entry that is not larger. -/
def insertBySize (a : α) : List α → List α
  | [] => [a]
  | b :: l => if size b ≤ size a then a :: b :: l else b :: insertBySize a l

/-- The entries of a list by decreasing size. -/
def largestFirst (l : List α) : List α := l.foldr (insertBySize size) []

variable {size}

theorem mem_insertBySize {a b : α} {l : List α} : b ∈ insertBySize size a l ↔ b = a ∨ b ∈ l := by
  induction l with
  | nil => simp [insertBySize]
  | cons c l ih =>
    unfold insertBySize
    split
    · simp
    · simp only [List.mem_cons, ih]
      exact or_left_comm

theorem mem_largestFirst {a : α} {l : List α} : a ∈ largestFirst size l ↔ a ∈ l := by
  induction l with
  | nil => simp [largestFirst]
  | cons b l ih =>
    rw [show largestFirst size (b :: l) = insertBySize size b (largestFirst size l) from rfl,
      mem_insertBySize, ih, List.mem_cons]

theorem pairwise_insertBySize {a : α} {l : List α} (h : l.Pairwise fun x y => size y ≤ size x) :
    (insertBySize size a l).Pairwise fun x y => size y ≤ size x := by
  induction l with
  | nil => simp [insertBySize]
  | cons b l ih =>
    obtain ⟨hb, hl⟩ := List.pairwise_cons.1 h
    unfold insertBySize
    split
    · rename_i hle
      refine List.pairwise_cons.2 ⟨fun x hx => ?_, h⟩
      rcases List.mem_cons.1 hx with rfl | hx
      · exact hle
      · exact Nat.le_trans (hb x hx) hle
    · rename_i hlt
      refine List.pairwise_cons.2 ⟨fun x hx => ?_, ih hl⟩
      rcases mem_insertBySize.1 hx with rfl | hx
      · omega
      · exact hb x hx

theorem pairwise_largestFirst (l : List α) :
    (largestFirst size l).Pairwise fun x y => size y ≤ size x := by
  induction l with
  | nil => simp [largestFirst]
  | cons b l ih => exact pairwise_insertBySize ih

/-- Of the entries at which something is found, a largest one is the first. -/
theorem exists_of_findSome?_largestFirst {β : Type} {find : α → Option β} {l : List α} {found : β}
    (h : (largestFirst size l).findSome? find = some found) :
    ∃ a ∈ l, find a = some found ∧ ∀ b ∈ l, (find b).isSome → size b ≤ size a := by
  obtain ⟨tried, a, later, hsplit, hfound, hnone⟩ := List.findSome?_eq_some_iff.1 h
  have hmem : ∀ b, b ∈ l ↔ b ∈ tried ++ a :: later := by
    intro b
    rw [← hsplit, mem_largestFirst]
  have hsorted : (largestFirst size l).Pairwise _ := pairwise_largestFirst l
  rw [hsplit, List.pairwise_append] at hsorted
  refine ⟨a, (hmem a).2 (by simp), hfound, fun b hb hsome => ?_⟩
  rcases List.mem_append.1 ((hmem b).1 hb) with htried | hlater
  · rw [hnone b htried] at hsome
    cases hsome
  · rcases List.mem_cons.1 hlater with rfl | hlater
    · exact Nat.le_refl _
    · exact (List.pairwise_cons.1 hsorted.2.1).1 b hlater

end TemplateTokens
