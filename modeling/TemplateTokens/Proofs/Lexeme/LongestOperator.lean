import Mathlib.Data.List.Chain
import Mathlib.Order.Bounds.Basic
import TemplateTokens.Proofs.Lexeme.Cut
import TemplateTokens.Proofs.Lexeme.Spelling

/-!
# The longest operator

Operators are tried by the size of their spelling, and the first that matches is taken. But an
operator of several words matches texts of any size, and one that ends in a letter may be rejected
for what stands behind it. Where operators are written with one small character of white space
between two words, the order of the spellings is nevertheless the order of the matches: of two
beginnings of one text that spell operators, the longer one is longer by more than white space.

Results:

* `Operator.wordsAt?_eq_some_iff`, `Operator.at?_ofText_eq_some_iff`: what an operator takes up,
  without the matcher.
* `tightSize_append`, `Tidy.tightSize_of_spells`: a text that spells an operator has the size of
  that operator if every run of white space counts as one byte.
* `Tidy.byteSize_le`: of two operators that match, the larger one does not take up less.
* `exists_of_operatorAt?`: no operator that matches is larger than the one that is taken.
* `operatorAt?_isGreatest`: the longest match is taken, whatever the order of the vocabulary.
-/

namespace TemplateTokens

/-! ## What the matcher finds -/

/-- A text with no white space in it that is not empty. -/
def IsWord (w : Text) : Prop := w ≠ [] ∧ ∀ c ∈ w, isWhiteSpace c = false

theorem isWord_of_mem_splitWords {t w : Text} (h : w ∈ splitWords t) : IsWord w :=
  ⟨splitWords_ne_nil h, fun _ hc => isWhiteSpace_of_mem_splitWords h hc⟩

namespace Spells

variable {ws : List Text} {v : Text}

theorem words_ne_nil (h : Spells ws v) : ws ≠ [] := by
  cases h <;> exact List.cons_ne_nil _ _

theorem exists_cons (h : Spells ws v) (hws : ∀ w ∈ ws, IsWord w) :
    ∃ c u, v = c :: u ∧ isWhiteSpace c = false := by
  cases h with
  | one w =>
    obtain ⟨hne, hw⟩ := hws v List.mem_cons_self
    obtain ⟨c, u, rfl⟩ := List.exists_cons_of_ne_nil hne
    exact ⟨c, u, rfl, hw c List.mem_cons_self⟩
  | cons w =>
    obtain ⟨hne, hw⟩ := hws w List.mem_cons_self
    obtain ⟨c, u, rfl⟩ := List.exists_cons_of_ne_nil hne
    exact ⟨c, _, rfl, hw c List.mem_cons_self⟩

theorem exists_concat (h : Spells ws v) (hws : ∀ w ∈ ws, IsWord w) :
    ∃ u c, v = u ++ [c] ∧ isWhiteSpace c = false := by
  induction h with
  | one w =>
    obtain ⟨hne, hw⟩ := hws w List.mem_cons_self
    exact ⟨w.dropLast, w.getLast hne, (List.dropLast_concat_getLast hne).symm,
      hw _ (List.getLast_mem hne)⟩
  | cons w _ _ _ ih =>
    obtain ⟨u, c, rfl, hc⟩ := ih (List.forall_mem_cons.1 hws).2
    exact ⟨_, c, (List.append_assoc _ u [c]).symm, hc⟩

end Spells

namespace Operator

/-- Behind words that are spelled at the start of a text nothing stands in the matcher's way. -/
theorem wordsAt?_of_spells {ws : List Text} {v : Text} (h : Spells ws v) (hws : ∀ w ∈ ws, IsWord w)
    (rest : Text) : wordsAt? ws (v ++ rest) = some v := by
  induction h with
  | one w => simp [wordsAt?]
  | @cons w gap v ws hne hgap hv ih =>
    obtain ⟨-, hlater⟩ := List.forall_mem_cons.1 hws
    obtain ⟨c, u, rfl, hc⟩ := hv.exists_cons hlater
    have hall := List.all_eq_true.1 hgap
    have htake : (gap ++ (c :: u ++ rest)).takeWhile isWhiteSpace = gap := by
      rw [List.takeWhile_append_of_pos hall, List.cons_append,
        List.takeWhile_cons_of_neg (by simp [hc]), List.append_nil]
    have hdrop : (gap ++ (c :: u ++ rest)).dropWhile isWhiteSpace = c :: u ++ rest := by
      rw [List.dropWhile_append_of_pos hall, List.cons_append,
        List.dropWhile_cons_of_neg (by simp [hc])]
    have hprefix : w.isPrefixOf? (w ++ gap ++ (c :: u) ++ rest) =
        some (gap ++ (c :: u ++ rest)) := by
      rw [isPrefixOf?_eq_some_iff]
      simp only [List.append_assoc]
    rw [wordsAt?.eq_3 _ w ws hv.words_ne_nil, hprefix, Option.bind_some]
    dsimp only
    rw [htake, hdrop, ih hlater, if_neg (by simpa using hne)]
    rfl

theorem wordsAt?_eq_some_iff {ws : List Text} (hne : ws ≠ []) (hws : ∀ w ∈ ws, IsWord w)
    {t v : Text} : wordsAt? ws t = some v ↔ Spells ws v ∧ v <+: t := by
  constructor
  · intro h
    exact ⟨spells_of_wordsAt? hne h, wordsAt?_sound h⟩
  · rintro ⟨h, rest, rfl⟩
    exact wordsAt?_of_spells h hws rest

theorem mayEndBefore_iff {rest : Text} : mayEndBefore rest = true ↔
    ∃ c u, rest = c :: u ∧ (isWhiteSpace c = true ∨ c = '(') := by
  cases rest with
  | nil => simp [mayEndBefore]
  | cons c u => simp [mayEndBefore]

/-- An operator takes up a text that spells its words, where it may end behind it. -/
theorem at?_ofText_eq_some_iff {o t v : Text} (ho : splitWords o ≠ []) :
    (ofText o).at? t = some v ↔ ∃ rest, t = v ++ rest ∧ Spells (splitWords o) v ∧
      (o.getLast?.any Char.isAlpha = true →
        ∃ c u, rest = c :: u ∧ (isWhiteSpace c = true ∨ c = '(')) := by
  have hwords : ∀ found, wordsAt? (splitWords o) t = some found ↔ _ := fun found =>
    wordsAt?_eq_some_iff ho fun w hw => isWord_of_mem_splitWords hw
  simp only [← mayEndBefore_iff]
  rw [at?, Option.bind_eq_some_iff]
  constructor
  · rintro ⟨found, hfound, hguard⟩
    obtain ⟨hspells, rest, rfl⟩ := (hwords found).1 hfound
    rw [List.drop_left] at hguard
    split at hguard
    · cases hguard
    · rename_i hnot
      cases hguard
      refine ⟨rest, rfl, hspells, fun hletter => ?_⟩
      rw [show (ofText o).guarded = true from hletter] at hnot
      simpa using hnot
  · rintro ⟨rest, rfl, hspells, hguard⟩
    refine ⟨v, (hwords v).2 ⟨hspells, List.prefix_append v rest⟩, if_neg ?_⟩
    rw [List.drop_left]
    have hend : (ofText o).guarded = true → mayEndBefore rest = true := hguard
    simpa using hend

end Operator

/-! ## Sizes without the width of white space -/

/-- The size of a text in which every run of white space counts as one byte. -/
def tightSize : Text → Nat
  | [] => 0
  | c :: t =>
    if isWhiteSpace c then if t.head?.any isWhiteSpace then tightSize t else 1 + tightSize t
    else c.utf8Size + tightSize t

/-- Sizes add up where no run of white space is cut. -/
theorem tightSize_append {s t : Text} (h : s.getLast?.any isWhiteSpace = false ∨
    t.head?.any isWhiteSpace = false) : tightSize (s ++ t) = tightSize s + tightSize t := by
  induction s with
  | nil => simp [tightSize]
  | cons c s ih =>
    -- A run is counted at its last character, so `c` must see the same character behind it.
    have hhead : isWhiteSpace c = true → (s ++ t).head?.any isWhiteSpace =
        s.head?.any isWhiteSpace := by
      intro hc
      cases s with
      | cons => rfl
      | nil => exact h.resolve_left (by simp [hc])
    have hrest : tightSize (s ++ t) = tightSize s + tightSize t := by
      cases s with
      | nil => simp [tightSize]
      | cons b s => exact ih (by rwa [List.getLast?_cons_cons] at h)
    rw [List.cons_append, tightSize, tightSize, hrest]
    split
    · rename_i hc
      rw [hhead hc]
      split <;> omega
    · omega

theorem tightSize_pos {t : Text} (h : t ≠ []) : 0 < tightSize t := by
  induction t with
  | nil => exact absurd rfl h
  | cons c t ih =>
    unfold tightSize
    have hc := c.utf8Size_pos
    split
    · split
      · rename_i ht
        apply ih
        rintro rfl
        cases ht
      · omega
    · omega

theorem tightSize_of_word {w : Text} (h : ∀ c ∈ w, isWhiteSpace c = false) :
    tightSize w = byteSize w := by
  induction w with
  | nil => rfl
  | cons c w ih =>
    obtain ⟨hc, hw⟩ := List.forall_mem_cons.1 h
    simp [tightSize, hc, ih hw]

theorem tightSize_of_gap {gap : Text} (hne : gap ≠ []) (h : gap.all isWhiteSpace = true) :
    tightSize gap = 1 := by
  induction gap with
  | nil => exact absurd rfl hne
  | cons c gap ih =>
    obtain ⟨hc, hgap⟩ := by simpa using h
    cases gap with
    | nil => simp [tightSize, hc]
    | cons b gap =>
      have hb := hgap b List.mem_cons_self
      rw [tightSize, if_pos hc, if_pos (by simpa using hb)]
      exact ih (by simp) (by simpa using hgap)

/-- The size of a text that spells words: that of the words, and one byte between each two. -/
theorem Spells.tightSize_eq {ws : List Text} {v : Text} (h : Spells ws v)
    (hws : ∀ w ∈ ws, IsWord w) : tightSize v + 1 = byteSize ws.flatten + ws.length := by
  induction h with
  | one w => simp [tightSize_of_word (hws w List.mem_cons_self).2]
  | @cons w gap v ws hne hgap hv ih =>
    obtain ⟨hw, hlater⟩ := List.forall_mem_cons.1 hws
    obtain ⟨c, u, rfl, hc⟩ := hv.exists_cons hlater
    have hbehind : tightSize (gap ++ c :: u) = 1 + tightSize (c :: u) := by
      rw [tightSize_append (Or.inr (by simpa using hc)), tightSize_of_gap hne hgap]
    have hlast : w.getLast?.any isWhiteSpace = false := by
      rw [List.getLast?_eq_some_getLast hw.1]
      exact hw.2 _ (List.getLast_mem hw.1)
    have hall : tightSize (w ++ gap ++ c :: u) = byteSize w + (1 + tightSize (c :: u)) := by
      rw [List.append_assoc, tightSize_append (Or.inl hlast), hbehind, tightSize_of_word hw.2]
    have hsize := ih hlater
    rw [hall, List.flatten_cons, byteSize_append, List.length_cons]
    omega

/-! ## Tidy spellings -/

/-- An operator that is written with one small character of white space between two words. -/
structure Tidy (o : Text) : Prop where
  head : o.head?.any isWhiteSpace = false
  last : o.getLast?.any isWhiteSpace = false
  single : o.IsChain fun a b => isWhiteSpace a = true → isWhiteSpace b = false
  small : ∀ c ∈ o, isWhiteSpace c = true → c.utf8Size = 1

theorem tidy_iff {o : Text} : (o.head?.any isWhiteSpace = false ∧
    o.getLast?.any isWhiteSpace = false ∧
    (o.IsChain fun a b => isWhiteSpace a = true → isWhiteSpace b = false) ∧
    (o.all fun c => !isWhiteSpace c || c.utf8Size == 1) = true) ↔ Tidy o := by
  have hsmall : (o.all fun c => !isWhiteSpace c || c.utf8Size == 1) = true ↔
      ∀ c ∈ o, isWhiteSpace c = true → c.utf8Size = 1 := by
    simp [Decidable.imp_iff_not_or]
  rw [hsmall]
  exact ⟨fun ⟨h₁, h₂, h₃, h₄⟩ => ⟨h₁, h₂, h₃, h₄⟩, fun h => ⟨h.head, h.last, h.single, h.small⟩⟩

instance (o : Text) : Decidable (Tidy o) := decidable_of_decidable_of_iff tidy_iff

theorem spells_modifyHead {ws : List Text} {v : Text} (h : Spells ws v) (c : Char) :
    Spells (ws.modifyHead (c :: ·)) (c :: v) := by
  cases h with
  | one => exact .one (c :: v)
  | cons w hne hgap hv => exact .cons (c :: w) hne hgap hv

namespace Tidy

variable {o t : Text}

theorem suffix {s : Text} (h : Tidy (s ++ t)) (hne : t ≠ [])
    (ht : t.head?.any isWhiteSpace = false) : Tidy t where
  head := ht
  last := by
    have hlast := h.last
    rwa [List.getLast?_append_of_ne_nil s hne] at hlast
  single := (List.isChain_append.1 h.single).2.1
  small := fun c hc => h.small c (List.mem_append_right s hc)

/-- The pieces between the white space of a tidy operator are its words. -/
theorem spells_splitOnP : ∀ {o : Text}, o ≠ [] → Tidy o →
    Spells (o.splitOnP isWhiteSpace) o ∧ [] ∉ o.splitOnP isWhiteSpace
  | [], hne, _ => absurd rfl hne
  | [c], _, h => by
    have hc : isWhiteSpace c = false := h.head
    simp [List.splitOnP_cons_eq_if_modifyHead, hc, Spells.one]
  | c :: d :: t, _, h => by
    have hc : isWhiteSpace c = false := h.head
    rw [List.splitOnP_cons_eq_if_modifyHead, hc]
    -- Either the first word goes on with `d`, or it is `c` alone and another one follows.
    cases hd : isWhiteSpace d with
    | false =>
      obtain ⟨hspells, hnil⟩ := spells_splitOnP (List.cons_ne_nil d t)
        (suffix (s := [c]) h (List.cons_ne_nil d t) hd)
      obtain ⟨w, ws, hpieces⟩ := List.exists_cons_of_ne_nil hspells.words_ne_nil
      refine ⟨spells_modifyHead hspells c, ?_⟩
      rw [hpieces] at hnil ⊢
      simp only [List.mem_cons, not_or] at hnil
      simp [hnil.2]
    | true =>
      have hne : t ≠ [] := by
        rintro rfl
        exact absurd (h.last.symm.trans hd) Bool.false_ne_true
      obtain ⟨b, u, rfl⟩ := List.exists_cons_of_ne_nil hne
      have hchain := h.single
      rw [List.isChain_cons_cons, List.isChain_cons_cons] at hchain
      have hb : isWhiteSpace b = false := hchain.2.1 hd
      obtain ⟨hspells, hnil⟩ := spells_splitOnP hne (suffix (s := [c, d]) h hne hb)
      have hpieces : (d :: b :: u).splitOnP isWhiteSpace =
          [] :: (b :: u).splitOnP isWhiteSpace := by
        rw [List.splitOnP_cons_eq_if_modifyHead, if_pos hd]
      rw [hpieces]
      refine ⟨.cons [c] (List.cons_ne_nil d []) (by simpa using hd) hspells, ?_⟩
      simpa using hnil

theorem spells (h : Tidy o) (hne : o ≠ []) : Spells (splitWords o) o := by
  obtain ⟨hspells, hnil⟩ := spells_splitOnP hne h
  have hall : splitWords o = o.splitOnP isWhiteSpace := by
    refine List.filter_eq_self.2 fun w hw => ?_
    have hw' : w ≠ [] := fun e => hnil (e ▸ hw)
    simpa using hw'
  rw [hall]
  exact hspells

theorem words_ne_nil (h : Tidy o) (hne : o ≠ []) : splitWords o ≠ [] := (h.spells hne).words_ne_nil

/-- In a tidy operator no run of white space is larger than one byte. -/
theorem tightSize_eq (h : ∀ c ∈ o, isWhiteSpace c = true → c.utf8Size = 1)
    (hsingle : o.IsChain fun a b => isWhiteSpace a = true → isWhiteSpace b = false) :
    tightSize o = byteSize o := by
  induction o with
  | nil => rfl
  | cons c o ih =>
    obtain ⟨hc, ho⟩ := List.forall_mem_cons.1 h
    rw [tightSize, ih ho hsingle.tail, byteSize_cons]
    split
    · rename_i hspace
      rw [hc hspace, if_neg]
      cases o with
      | nil => simp
      | cons b o =>
        have hb := (List.isChain_cons_cons.1 hsingle).1 hspace
        simp [hb]
    · rfl

/-- A text that spells a tidy operator is larger only by white space. -/
theorem tightSize_of_spells (h : Tidy o) (hne : o ≠ []) {v : Text} (hv : Spells (splitWords o) v) :
    tightSize v = byteSize o := by
  have hwords : ∀ w ∈ splitWords o, IsWord w := fun w hw => isWord_of_mem_splitWords hw
  have hsame := (hv.tightSize_eq hwords).trans ((h.spells hne).tightSize_eq hwords).symm
  rw [← tightSize_eq h.small h.single]
  omega

end Tidy

/-! ## The first match is the longest -/

/-- Of two tidy operators that match, the larger one does not take up less. -/
theorem Tidy.byteSize_le {o o' v v' t : Text} (ho : Tidy o ∧ o ≠ []) (ho' : Tidy o' ∧ o' ≠ [])
    (hat : (Operator.ofText o).at? t = some v) (hat' : (Operator.ofText o').at? t = some v')
    (hle : byteSize o' ≤ byteSize o) : byteSize v' ≤ byteSize v := by
  obtain ⟨rest, rfl, hv, -⟩ := (Operator.at?_ofText_eq_some_iff (ho.1.words_ne_nil ho.2)).1 hat
  obtain ⟨rest', e, hv', -⟩ := (Operator.at?_ofText_eq_some_iff (ho'.1.words_ne_nil ho'.2)).1 hat'
  have hprefix : v <+: v' ∨ v' <+: v :=
    List.prefix_or_prefix_of_prefix (List.prefix_append v rest) ⟨rest', e.symm⟩
  rcases hprefix with ⟨u, rfl⟩ | ⟨u, rfl⟩
  · -- What `v` leaves out would make the operator of the longer match the larger one.
    obtain ⟨s, c, rfl, hc⟩ := hv.exists_concat fun w hw => isWord_of_mem_splitWords hw
    have hsize := ho'.1.tightSize_of_spells ho'.2 hv'
    rw [tightSize_append (Or.inl (by simpa using hc)), ho.1.tightSize_of_spells ho.2 hv] at hsize
    have hu : u = [] := by
      by_contra hne
      have hpos := tightSize_pos hne
      omega
    rw [hu, List.append_nil]
  · rw [byteSize_append]
    omega

/-- No operator that matches is larger than the one that is taken. -/
theorem exists_of_operatorAt? {operators : List Text} {t v : Text}
    (h : operatorAt? (vocabulary operators) t = some v) :
    ∃ o ∈ withAssignment operators, (Operator.ofText o).at? t = some v ∧
      ∀ o' ∈ withAssignment operators, ((Operator.ofText o').at? t).isSome →
        byteSize o' ≤ byteSize o := by
  rw [operatorAt?, vocabulary, List.findSome?_map] at h
  exact exists_of_findSome?_largestFirst h

theorem mem_withAssignment_iff {operators : List Text} {o : Text} :
    o ∈ withAssignment operators ↔ o ∈ operators ∨ o = assignment := by
  refine ⟨mem_withAssignment, fun h => ?_⟩
  unfold withAssignment
  split
  · rename_i hmem
    rcases h with h | rfl
    · exact h
    · exact List.contains_iff_mem.1 hmem
  · simpa using h

namespace Dialect

variable {d : Dialect} {t v rest : Text}

theorem operator_ne_nil (h : d.defect? = none) : ∀ o ∈ d.operators, o ≠ [] := by
  unfold defect? at h
  split at h
  · cases h
  · split at h
    · cases h
    · split at h
      · cases h
      · split at h
        · cases h
        · rename_i hany
          intro o ho he
          exact hany (List.any_eq_true.2 ⟨o, ho, by rw [he]; rfl⟩)

/-- The operators of a usable dialect are tidy with assignment if they are tidy. -/
theorem tidy_withAssignment (hd : d.defect? = none) (htidy : ∀ o ∈ d.operators, Tidy o) :
    ∀ o ∈ withAssignment d.operators, Tidy o ∧ o ≠ [] := by
  intro o ho
  rcases mem_withAssignment ho with ho | rfl
  · exact ⟨htidy o ho, operator_ne_nil hd o ho⟩
  · decide

/-- The sizes of all operators that a text starts with. -/
def operatorSizes (d : Dialect) (t : Text) : Set Nat :=
  {n | ∃ v rest, t = v ++ rest ∧ d.IsOperator v rest ∧ byteSize v = n}

section Tidy

variable (htidy : ∀ o ∈ withAssignment d.operators, Tidy o ∧ o ≠ [])
include htidy

/-- The operators that a text starts with are those that match. -/
theorem mem_operatorSizes {n : Nat} : n ∈ d.operatorSizes t ↔
    ∃ o ∈ withAssignment d.operators, ∃ v, (Operator.ofText o).at? t = some v ∧ byteSize v = n := by
  have hat : ∀ o ∈ withAssignment d.operators, ∀ v, (Operator.ofText o).at? t = some v ↔ _ :=
    fun o ho v => Operator.at?_ofText_eq_some_iff ((htidy o ho).1.words_ne_nil (htidy o ho).2)
  constructor
  · rintro ⟨v, rest, rfl, ⟨o, ho, hfound⟩, hn⟩
    have hmem := mem_withAssignment_iff.2 ho
    exact ⟨o, hmem, v, (hat o hmem v).2 ⟨rest, rfl, hfound⟩, hn⟩
  · rintro ⟨o, ho, v, hv, hn⟩
    obtain ⟨rest, rfl, hfound⟩ := (hat o ho v).1 hv
    exact ⟨v, rest, rfl, ⟨o, mem_withAssignment ho, hfound⟩, hn⟩

theorem isGreatest_of_operatorAt? (h : operatorAt? (vocabulary d.operators) t = some v) :
    IsGreatest (d.operatorSizes t) (byteSize v) := by
  obtain ⟨o, ho, hat, hlargest⟩ := exists_of_operatorAt? h
  constructor
  · exact (mem_operatorSizes htidy).2 ⟨o, ho, v, hat, rfl⟩
  · intro n hn
    obtain ⟨o', ho', v', hat', rfl⟩ := (mem_operatorSizes htidy).1 hn
    have hle := hlargest o' ho' (by rw [hat']; rfl)
    exact Tidy.byteSize_le (htidy o ho) (htidy o' ho') hat hat' hle

theorem operatorSizes_eq_empty_iff :
    d.operatorSizes t = ∅ ↔ operatorAt? (vocabulary d.operators) t = none := by
  constructor
  · intro h
    refine Option.eq_none_iff_forall_ne_some.2 fun v hv => ?_
    have hmem := (isGreatest_of_operatorAt? htidy hv).1
    rw [h] at hmem
    exact hmem
  · intro h
    refine Set.eq_empty_iff_forall_notMem.2 fun n hn => ?_
    obtain ⟨o, ho, v, hat, -⟩ := (mem_operatorSizes htidy).1 hn
    have hnone := List.findSome?_eq_none_iff.1 h (Operator.ofText o)
      (List.mem_map.2 ⟨o, mem_largestFirst.2 ho, rfl⟩)
    rw [hat] at hnone
    cases hnone

end Tidy

end Dialect

/-- Dialects with the same operators, in whatever order, find the same one. -/
theorem Dialect.operatorAt?_congr {d d' : Dialect} {t : Text}
    (htidy : ∀ o ∈ withAssignment d.operators, Tidy o ∧ o ≠ [])
    (hsame : ∀ o, o ∈ d'.operators ↔ o ∈ d.operators) :
    operatorAt? (vocabulary d'.operators) t = operatorAt? (vocabulary d.operators) t := by
  have htidy' : ∀ o ∈ withAssignment d'.operators, Tidy o ∧ o ≠ [] := by
    intro o ho
    rw [mem_withAssignment_iff, hsame o] at ho
    exact htidy o (mem_withAssignment_iff.2 ho)
  have hsizes : d'.operatorSizes t = d.operatorSizes t := by
    simp only [operatorSizes, IsOperator, hsame]
  cases hv : operatorAt? (vocabulary d.operators) t with
  | none => rw [← operatorSizes_eq_empty_iff htidy', hsizes, operatorSizes_eq_empty_iff htidy, hv]
  | some v =>
    have hgreatest := isGreatest_of_operatorAt? htidy hv
    rw [← hsizes] at hgreatest
    obtain ⟨v', hv'⟩ : ∃ v', operatorAt? (vocabulary d'.operators) t = some v' := by
      refine Option.ne_none_iff_exists'.1 fun hnone => ?_
      rw [(operatorSizes_eq_empty_iff htidy').2 hnone] at hgreatest
      exact hgreatest.1
    have hsize := (isGreatest_of_operatorAt? htidy' hv').unique hgreatest
    rw [hv', eq_of_isPrefix_of_byteSize_eq (Lexicon.operatorAt?_isPrefix hv')
      (Lexicon.operatorAt?_isPrefix hv) hsize]

/-- The longest operator that a text starts with is the one that is taken, and none is taken only
where the text starts with none. The order of the vocabulary and repetitions in it do not matter. -/
theorem operatorAt?_isGreatest {d : Dialect} (hd : d.defect? = none)
    (htidy : ∀ o ∈ d.operators, Tidy o) (t : Text) :
    (∀ n, (operatorAt? (Lexicon.ofDialect d).ranked t).map byteSize = some n ↔
      IsGreatest (d.operatorSizes t) n) ∧
    (operatorAt? (Lexicon.ofDialect d).ranked t = none ↔ d.operatorSizes t = ∅) ∧
    ∀ operators, (∀ o, o ∈ operators ↔ o ∈ d.operators) →
      operatorAt? (vocabulary operators) t = operatorAt? (Lexicon.ofDialect d).ranked t := by
  have hall := Dialect.tidy_withAssignment hd htidy
  have hranked : (Lexicon.ofDialect d).ranked = vocabulary d.operators := rfl
  rw [hranked]
  refine ⟨fun n => ⟨fun h => ?_, fun h => ?_⟩, (Dialect.operatorSizes_eq_empty_iff hall).symm,
    fun operators hsame => ?_⟩
  · obtain ⟨v, hv, rfl⟩ := Option.map_eq_some_iff.1 h
    exact Dialect.isGreatest_of_operatorAt? hall hv
  · cases hv : operatorAt? (vocabulary d.operators) t with
    | none =>
      rw [(Dialect.operatorSizes_eq_empty_iff hall).2 hv] at h
      exact absurd h.1 (Set.notMem_empty n)
    | some v =>
      rw [Option.map_some, (Dialect.isGreatest_of_operatorAt? hall hv).unique h]
  · exact @Dialect.operatorAt?_congr d { d with operators := operators } t hall hsame

/-- Behind `not` any white space may stand before `in`, and the match is longer than that of `not`
alone; in the reversed vocabulary it is the same. -/
theorem operatorAt?_isGreatest_notIn :
    IsGreatest (Dialect.standard.operatorSizes "not \n\t in (".toList) 9 ∧
      operatorAt? (vocabulary Dialect.standard.operators.reverse) "not \n\t in (".toList =
        some "not \n\t in".toList := by
  have h := operatorAt?_isGreatest Dialect.defect?_standard (by decide) "not \n\t in (".toList
  refine ⟨(h.1 9).1 (by decide), ?_⟩
  rw [h.2.2 _ fun o => List.mem_reverse]
  decide

end TemplateTokens
