import TemplateTokens.Dialect.Defect
import TemplateTokens.Lexeme.TagStart

/-!
# The scan for tag starts

The tag starts of a template come from one scan from left to right, in which each search begins
where the last find ended. A search from some place between is compared here with that scan: the
two agree unless the place is inside of a tag start of the scan.

Results:

* `Dialect.pairwise_tagStarts`: the tag starts of a scan are in order and do not overlap.
* `Dialect.begins_of_mem_tagStarts`: a tag start of a scan is what begins at its place.
* `Dialect.stands_of_mem_tagStarts`, `Dialect.stands_of_firstTagStart?`: a tag start found stands
  in the text.
* `Dialect.not_opening_prefix_of_lt_firstTagStart?`: nothing before the first one opens a tag.
* `Dialect.exists_tagStartsFrom_append`: what a scan of a text found up to a place and behind it.
-/

namespace TemplateTokens

namespace Dialect

variable {d : Dialect}

/-- The text of a tag start: the delimiter and the trim marker behind it. -/
def startText (d : Dialect) (t : TagStart) : Text := d.opening t.tag ++ d.modifierText t.modifier

theorem tagStop_eq (d : Dialect) (t : TagStart) :
    d.tagStop t = t.start + byteSize (d.startText t) := by
  rw [tagStop, modifierStart, startText, byteSize_append, Nat.add_assoc]

/-- A tag start stands in a text that begins at byte `offset` of the template. -/
def Stands (d : Dialect) (t : TagStart) (offset : Nat) (text : Text) : Prop :=
  ∃ before after, text = before ++ (d.startText t ++ after) ∧ t.start = offset + byteSize before

/-- A tag start is what is found at its place in a text that begins at byte `offset` of the
template. -/
def Begins (d : Dialect) (t : TagStart) (offset : Nat) (text : Text) : Prop :=
  ∃ before after, text = before ++ after ∧ d.tagAt? after = some (t.tag, t.modifier) ∧
    t.start = offset + byteSize before

/-- A tag start that stands behind a piece of a text stands in what follows the piece. -/
theorem Stands.of_append {t : TagStart} {offset : Nat} {piece rest : Text}
    (h : d.Stands t offset (piece ++ rest)) (hle : offset + byteSize piece ≤ t.start) :
    d.Stands t (offset + byteSize piece) rest := by
  obtain ⟨before, after, htext, hstart⟩ := h
  rcases List.append_eq_append_iff.1 htext with ⟨before', rfl, rfl⟩ | ⟨extra, rfl, hafter⟩
  · exact ⟨before', after, rfl, by rw [hstart, byteSize_append, Nat.add_assoc]⟩
  · rw [byteSize_append] at hle
    obtain rfl : extra = [] := byteSize_eq_zero.1 (by omega)
    exact ⟨[], after, hafter.symm, by rw [hstart, List.append_nil, byteSize_nil, Nat.add_zero]⟩

/-! ## At one place -/

theorem tagAt?_eq_some {text : Text} {tag : Tag} {m : Option Trim}
    (h : d.tagAt? text = some (tag, m)) (offset : Nat) :
    ∃ after, text = d.startText ⟨tag, offset, m⟩ ++ after := by
  obtain ⟨tag', -, h⟩ := List.exists_of_findSome?_eq_some h
  simp only [Option.map_eq_some_iff, Prod.mk.injEq] at h
  obtain ⟨rest, hrest, rfl, rfl⟩ := h
  obtain ⟨after, hafter⟩ := modifierText_modifierAt d rest
  refine ⟨after, ?_⟩
  rw [startText, List.append_assoc, hafter]
  exact (isPrefixOf?_eq_some_iff.1 hrest).symm

/-- What is found at a place stands there. -/
theorem Begins.stands {t : TagStart} {offset : Nat} {text : Text} (h : d.Begins t offset text) :
    d.Stands t offset text := by
  obtain ⟨before, after, rfl, htag, hstart⟩ := h
  obtain ⟨behind, hbehind⟩ := tagAt?_eq_some htag t.start
  exact ⟨before, behind, congrArg (before ++ ·) hbehind, hstart⟩

theorem tagAt?_eq_none_iff {text : Text} :
    d.tagAt? text = none ↔ ∀ tag, ¬ d.opening tag <+: text := by
  simp only [tagAt?, List.findSome?_eq_none_iff, Option.map_eq_none_iff]
  constructor
  · rintro h tag ⟨rest, hrest⟩
    have := h tag (mem_tagOrder d tag)
    rw [isPrefixOf?_eq_some_iff.2 hrest] at this
    cases this
  · intro h tag _
    cases hr : (d.opening tag).isPrefixOf? text with
    | none => rfl
    | some rest => exact absurd ⟨rest, isPrefixOf?_eq_some_iff.1 hr⟩ (h tag)

theorem startText_ne_nil (hd : d.defect? = none) (t : TagStart) : d.startText t ≠ [] :=
  List.append_ne_nil_of_left_ne_nil (opening_ne_nil hd t.tag) _

theorem tagLength_eq (d : Dialect) (t : TagStart) :
    d.tagLength t.tag t.modifier = (d.startText t).length := by
  rw [tagLength, startText, List.length_append]

theorem start_lt_tagStop (hd : d.defect? = none) (t : TagStart) : t.start < d.tagStop t := by
  have hne : byteSize (d.startText t) ≠ 0 := fun h => startText_ne_nil hd t (byteSize_eq_zero.1 h)
  rw [tagStop_eq]
  omega

/-! ## Searching once -/

theorem stands_of_firstTagStart? {offset : Nat} {text : Text} {t : TagStart}
    (h : d.firstTagStart? offset text = some t) : d.Stands t offset text := by
  induction text generalizing offset with
  | nil => cases h
  | cons c text ih =>
    rw [firstTagStart?] at h
    split at h
    · rename_i tag m htag
      cases h
      obtain ⟨after, hafter⟩ := tagAt?_eq_some htag offset
      exact ⟨[], after, hafter, rfl⟩
    · obtain ⟨before, after, rfl, hstart⟩ := ih h
      exact ⟨c :: before, after, rfl, by rw [hstart, byteSize_cons, Nat.add_assoc]⟩

theorem le_start_of_firstTagStart? {offset : Nat} {text : Text} {t : TagStart}
    (h : d.firstTagStart? offset text = some t) : offset ≤ t.start := by
  obtain ⟨before, after, -, hstart⟩ := stands_of_firstTagStart? h
  omega

/-- No tag opens before the first tag start, and none at all where there is no tag start. -/
theorem not_opening_prefix_of_lt_firstTagStart? (hd : d.defect? = none) {offset : Nat}
    {before after : Text} (h : ∀ t, d.firstTagStart? offset (before ++ after) = some t →
      offset + byteSize before < t.start) (tag : Tag) : ¬ d.opening tag <+: after := by
  induction before generalizing offset with
  | nil =>
    cases after with
    | nil => exact fun hp => opening_ne_nil hd tag (List.prefix_nil.1 hp)
    | cons c after =>
      cases htag : d.tagAt? (c :: after) with
      | none => exact tagAt?_eq_none_iff.1 htag tag
      | some found =>
        have := h ⟨found.1, offset, found.2⟩ (by simp [firstTagStart?, htag])
        simp at this
  | cons c before ih =>
    cases htag : d.tagAt? (c :: (before ++ after)) with
    | some found =>
      have := h ⟨found.1, offset, found.2⟩ (by simp [firstTagStart?, htag])
      simp only at this
      omega
    | none =>
      have hih : ∀ t, d.firstTagStart? (offset + c.utf8Size) (before ++ after) = some t →
          offset + c.utf8Size + byteSize before < t.start := by
        intro t ht
        have := h t (by simpa [firstTagStart?, htag] using ht)
        rw [byteSize_cons] at this
        omega
      exact ih hih

/-- A search that finds nothing in a piece of the text goes on behind it. -/
theorem firstTagStart?_append {offset : Nat} {piece rest : Text}
    (h : ∀ t, d.firstTagStart? offset (piece ++ rest) = some t →
      offset + byteSize piece ≤ t.start) :
    d.firstTagStart? offset (piece ++ rest) = d.firstTagStart? (offset + byteSize piece) rest := by
  induction piece generalizing offset with
  | nil => rfl
  | cons c piece ih =>
    have hc := c.utf8Size_pos
    rw [byteSize_cons] at h ⊢
    cases htag : d.tagAt? (c :: (piece ++ rest)) with
    | some found =>
      have := h ⟨found.1, offset, found.2⟩ (by simp [firstTagStart?, htag])
      simp only at this
      omega
    | none =>
      rw [List.cons_append, firstTagStart?, htag, ← Nat.add_assoc]
      refine ih fun t ht => ?_
      have := h t (by simpa [firstTagStart?, htag] using ht)
      omega

/-! ## Scanning -/

theorem tagStartsFrom_skip (offset : Nat) (piece rest : Text) :
    d.tagStartsFrom offset piece.length (piece ++ rest) =
      d.tagStartsFrom (offset + byteSize piece) 0 rest := by
  induction piece generalizing offset with
  | nil => rfl
  | cons c piece ih =>
    rw [List.length_cons, List.cons_append, tagStartsFrom, ih, byteSize_cons, Nat.add_assoc]

/-- A scan goes on behind the tag start it has found. -/
theorem tagStartsFrom_of_tagAt? (hd : d.defect? = none) {offset : Nat} {text after : Text}
    {tag : Tag} {m : Option Trim} (h : d.tagAt? text = some (tag, m))
    (e : text = d.startText ⟨tag, offset, m⟩ ++ after) :
    d.tagStartsFrom offset 0 text =
      ⟨tag, offset, m⟩ :: d.tagStartsFrom (d.tagStop ⟨tag, offset, m⟩) 0 after := by
  have hlen := tagLength_eq d ⟨tag, offset, m⟩
  have hstop := tagStop_eq d ⟨tag, offset, m⟩
  cases htext : d.startText ⟨tag, offset, m⟩ with
  | nil => exact absurd htext (startText_ne_nil hd _)
  | cons c piece =>
    rw [htext] at e hlen hstop
    subst e
    rw [List.cons_append] at h ⊢
    simp only [List.length_cons] at hlen
    rw [tagStartsFrom, h]
    simp only [hlen, Nat.add_sub_cancel, hstop, byteSize_cons]
    rw [tagStartsFrom_skip, Nat.add_assoc]

theorem tagStartsFrom_of_tagAt?_eq_none {offset : Nat} {c : Char} {text : Text}
    (h : d.tagAt? (c :: text) = none) :
    d.tagStartsFrom offset 0 (c :: text) = d.tagStartsFrom (offset + c.utf8Size) 0 text := by
  rw [tagStartsFrom, h]

theorem head?_tagStartsFrom (offset : Nat) (text : Text) :
    (d.tagStartsFrom offset 0 text).head? = d.firstTagStart? offset text := by
  induction text generalizing offset with
  | nil => rfl
  | cons c text ih =>
    cases h : d.tagAt? (c :: text) with
    | none => rw [tagStartsFrom_of_tagAt?_eq_none h, ih, firstTagStart?, h]
    | some found => simp [tagStartsFrom, firstTagStart?, h]

/-- The tag starts of a scan begin at their places, in order and without overlaps. -/
theorem tagStartsFrom_spec (hd : d.defect? = none) (offset : Nat) (text : Text) :
    (∀ t ∈ d.tagStartsFrom offset 0 text, d.Begins t offset text) ∧
      (d.tagStartsFrom offset 0 text).Pairwise fun s t => d.tagStop s ≤ t.start := by
  induction hn : text.length using Nat.strongRecOn generalizing offset text with
  | _ n ih =>
    subst hn
    cases text with
    | nil => exact ⟨nofun, List.Pairwise.nil⟩
    | cons c text =>
      cases htag : d.tagAt? (c :: text) with
      | none =>
        obtain ⟨hbegins, hpair⟩ := ih text.length (by simp) (offset + c.utf8Size) text rfl
        rw [tagStartsFrom_of_tagAt?_eq_none htag]
        refine ⟨fun t ht => ?_, hpair⟩
        obtain ⟨before, after, rfl, hthere, hstart⟩ := hbegins t ht
        exact ⟨c :: before, after, rfl, hthere, by rw [hstart, byteSize_cons, Nat.add_assoc]⟩
      | some found =>
        obtain ⟨tag, m⟩ := found
        obtain ⟨after, hafter⟩ := tagAt?_eq_some htag offset
        have hlt : after.length < (c :: text).length := by
          have := List.length_pos_iff.2 (startText_ne_nil hd ⟨tag, offset, m⟩)
          rw [hafter, List.length_append]
          omega
        obtain ⟨hbegins, hpair⟩ := ih _ hlt (d.tagStop ⟨tag, offset, m⟩) after rfl
        rw [tagStartsFrom_of_tagAt? hd htag hafter]
        have hbehind : ∀ t ∈ d.tagStartsFrom (d.tagStop ⟨tag, offset, m⟩) 0 after,
            d.tagStop ⟨tag, offset, m⟩ ≤ t.start := by
          intro t ht
          obtain ⟨before, _, -, -, hstart⟩ := hbegins t ht
          omega
        refine ⟨fun t ht => ?_, List.pairwise_cons.2 ⟨hbehind, hpair⟩⟩
        rcases List.mem_cons.1 ht with rfl | ht
        · exact ⟨[], c :: text, rfl, htag, rfl⟩
        · obtain ⟨before, behind, rfl, hthere, hstart⟩ := hbegins t ht
          refine ⟨d.startText ⟨tag, offset, m⟩ ++ before, behind, ?_, hthere, ?_⟩
          · rw [hafter, List.append_assoc]
          · rw [hstart, tagStop_eq, byteSize_append, Nat.add_assoc]

theorem begins_of_mem_tagStarts (hd : d.defect? = none) {source : Text} {t : TagStart}
    (h : t ∈ d.tagStarts source) : d.Begins t 0 source := (tagStartsFrom_spec hd 0 source).1 t h

theorem stands_of_mem_tagStarts (hd : d.defect? = none) {source : Text} {t : TagStart}
    (h : t ∈ d.tagStarts source) : d.Stands t 0 source := (begins_of_mem_tagStarts hd h).stands

theorem pairwise_tagStarts (hd : d.defect? = none) (source : Text) :
    (d.tagStarts source).Pairwise fun s t => d.tagStop s ≤ t.start :=
  (tagStartsFrom_spec hd 0 source).2

/-! ## A scan and a place in the text -/

/-- What a scan has found before a place in the text. Either all of it ends before the place, and
the scan goes on as one that begins there; or its last find reaches over the place, and the scan
goes on behind that. -/
theorem exists_tagStartsFrom_append (hd : d.defect? = none) (offset : Nat) (pre suf : Text) :
    ∃ passed ahead, d.tagStartsFrom offset 0 (pre ++ suf) = passed ++ ahead ∧
      (∀ t ∈ passed, t.start < offset + byteSize pre) ∧
      ((∀ t ∈ passed, d.tagStop t ≤ offset + byteSize pre) ∧
          ahead = d.tagStartsFrom (offset + byteSize pre) 0 suf ∨
        ∃ t ∈ passed, ∃ piece rest, suf = piece ++ rest ∧ piece ≠ [] ∧
          d.tagStop t = offset + byteSize pre + byteSize piece ∧
          ahead = d.tagStartsFrom (d.tagStop t) 0 rest) := by
  induction hn : pre.length using Nat.strongRecOn generalizing offset pre with
  | _ n ih =>
    subst hn
    cases pre with
    | nil => exact ⟨[], _, rfl, nofun, Or.inl ⟨nofun, rfl⟩⟩
    | cons c pre =>
      cases htag : d.tagAt? (c :: (pre ++ suf)) with
      | none =>
        have := ih pre.length (by simp) (offset + c.utf8Size) pre rfl
        rwa [List.cons_append, tagStartsFrom_of_tagAt?_eq_none htag, byteSize_cons,
          ← Nat.add_assoc]
      | some found =>
        obtain ⟨tag, m⟩ := found
        obtain ⟨after, hafter⟩ := tagAt?_eq_some htag offset
        rw [List.cons_append, tagStartsFrom_of_tagAt? hd htag hafter]
        rw [← List.cons_append] at hafter
        obtain ⟨t, ht⟩ : ∃ t : TagStart, t = ⟨tag, offset, m⟩ := ⟨_, rfl⟩
        have hstart : t.start = offset := by rw [ht]
        rw [← ht] at hafter ⊢
        have hstop := tagStop_eq d t
        have hsize : 0 < byteSize (c :: pre) := by
          have := c.utf8Size_pos
          rw [byteSize_cons]
          omega
        rcases List.append_eq_append_iff.1 hafter with ⟨piece, hpiece, rfl⟩ | ⟨pre', hpre', rfl⟩
        · -- the tag start reaches the place
          rw [hpiece, byteSize_append] at hstop
          refine ⟨[t], _, rfl, List.forall_mem_singleton.2 (by omega), ?_⟩
          cases piece with
          | nil =>
            have hplace : d.tagStop t = offset + byteSize (c :: pre) := by
              rw [hstop, byteSize_nil, hstart, Nat.add_zero]
            exact Or.inl ⟨List.forall_mem_singleton.2 (by omega), by rw [hplace]; rfl⟩
          | cons b piece =>
            refine Or.inr ⟨t, List.mem_singleton_self t, b :: piece, after, rfl, ?_, by omega, rfl⟩
            exact List.cons_ne_nil b piece
        · -- the tag start ends before the place, and the scan goes on to it
          have hplace : d.tagStop t + byteSize pre' = offset + byteSize (c :: pre) := by
            rw [hpre', byteSize_append]
            omega
          have hlt : pre'.length < (c :: pre).length := by
            have := List.length_pos_iff.2 (startText_ne_nil hd t)
            rw [hpre', List.length_append]
            omega
          obtain ⟨passed, ahead, hscan, hpassed, hahead⟩ := ih _ hlt (d.tagStop t) pre' rfl
          rw [hplace] at hpassed hahead
          refine ⟨t :: passed, ahead, by rw [hscan]; rfl, ?_, ?_⟩
          · exact List.forall_mem_cons.2 ⟨by omega, hpassed⟩
          · rcases hahead with ⟨hends, hahead⟩ | ⟨u, hu, hreach⟩
            · exact Or.inl ⟨List.forall_mem_cons.2 ⟨by omega, hends⟩, hahead⟩
            · exact Or.inr ⟨u, List.mem_cons_of_mem t hu, hreach⟩

end Dialect

end TemplateTokens
