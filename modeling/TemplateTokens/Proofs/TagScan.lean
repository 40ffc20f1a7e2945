import TemplateTokens.Lexer.Basic
import TemplateTokens.Proofs.Lexeme.TagStart

/-!
# What the scan for tag starts finds

Opening delimiters may begin alike or stand inside of each other, and they may begin or end with a
trim marker. The scan of a template takes the longest delimiter at a place with the trim marker
behind it, and goes on behind both. So it finds no tag start that overlaps another one, and where a
delimiter stands that is not the beginning of a tag start found, one found reaches over its place.

Results:

* `Dialect.tagAt?_longest`: of the delimiters at a place the longest one counts.
* `Dialect.modifierText_modifierAt_eq`: the next character is a trim marker or there is none.
* `Dialect.exists_tagStart_over`: no delimiter in the template is passed over.
* `Lexer.tagStarts_spec`: all of this of the scan of a template.
-/

namespace TemplateTokens

namespace Dialect

variable {d : Dialect}

/-! ## At one place -/

/-- The trim marker that a text begins with, as a text, which is empty where there is none. -/
def markerAt (d : Dialect) : Text → Text
  | [] => []
  | c :: _ => if c = d.trim ∨ c = d.lineTrim then [c] else []

theorem modifierText_modifierAt_eq (d : Dialect) (t : Text) :
    d.modifierText (d.modifierAt t) = d.markerAt t := by
  cases t with
  | nil => rfl
  | cons c t =>
    rw [modifierAt, markerAt]
    by_cases htrim : c = d.trim
    · rw [if_pos htrim, if_pos (Or.inl htrim), htrim]
      rfl
    · rw [if_neg htrim]
      by_cases hline : c = d.lineTrim
      · rw [if_pos hline, if_pos (Or.inr hline), hline]
        rfl
      · rw [if_neg hline, if_neg (not_or.2 ⟨htrim, hline⟩)]
        rfl

/-- What is found at a place is the tag with the longest delimiter there, and the trim whose marker
stands behind that. -/
theorem tagAt?_longest (hd : d.defect? = none) {text : Text} {tag : Tag} {m : Option Trim}
    (h : d.tagAt? text = some (tag, m)) :
    (∃ after, text = d.opening tag ++ after ∧ m = d.modifierAt after) ∧
      ∀ other, other ≠ tag → d.opening other <+: text →
        byteSize (d.opening other) < byteSize (d.opening tag) := by
  obtain ⟨tag', -, hfound, hlargest⟩ := exists_of_findSome?_largestFirst h
  obtain ⟨after, hafter, hpair⟩ := Option.map_eq_some_iff.1 hfound
  obtain ⟨rfl, rfl⟩ := Prod.mk.inj hpair
  have hbegins := isPrefixOf?_eq_some_iff.1 hafter
  refine ⟨⟨after, hbegins.symm, rfl⟩, fun other hne hother => ?_⟩
  obtain ⟨behind, hbehind⟩ := hother
  have hle : byteSize (d.opening other) ≤ byteSize (d.opening tag') := by
    apply hlargest other (by cases other <;> simp)
    rw [isPrefixOf?_eq_some_iff.2 hbehind]
    rfl
  -- delimiters of one size at one place are the same, and so are their tags
  have hdiff : byteSize (d.opening other) ≠ byteSize (d.opening tag') := by
    intro hsize
    apply hne
    apply opening_injective hd
    exact eq_of_isPrefix_of_byteSize_eq ⟨behind, hbehind⟩ ⟨after, hbegins⟩ hsize
  omega

/-! ## No delimiter is passed over -/

/-- Where a delimiter stands a scan that begins there finds a tag start at once. -/
theorem exists_tagStartsFrom_eq_cons (hd : d.defect? = none) {tag : Tag} {text : Text}
    (h : d.opening tag <+: text) (offset : Nat) :
    ∃ t later, d.tagStartsFrom offset 0 text = t :: later ∧ t.start = offset := by
  cases htag : d.tagAt? text with
  | none => exact absurd h (tagAt?_eq_none_iff.1 htag tag)
  | some found =>
    obtain ⟨after, hafter⟩ := tagAt?_eq_some htag offset
    exact ⟨_, _, tagStartsFrom_of_tagAt? hd htag hafter, rfl⟩

/-- Where a delimiter stands in a template, a tag start of the scan begins there or reaches over the
place. -/
theorem exists_tagStart_over (hd : d.defect? = none) {source before after : Text} {tag : Tag}
    (h : source = before ++ (d.opening tag ++ after)) :
    ∃ t ∈ d.tagStarts source, t.start ≤ byteSize before ∧ byteSize before < d.tagStop t := by
  obtain ⟨passed, ahead, hscan, hpassed, hcut⟩ :=
    exists_tagStartsFrom_append hd 0 before (d.opening tag ++ after)
  rw [tagStarts, h, hscan]
  rw [Nat.zero_add] at hpassed hcut
  obtain ⟨-, rfl⟩ | ⟨t, ht, piece, rest, -, hpiece, hstop, -⟩ := hcut
  · obtain ⟨t, later, hahead, hstart⟩ :=
      exists_tagStartsFrom_eq_cons hd (List.prefix_append (d.opening tag) after) (byteSize before)
    have hlt := start_lt_tagStop hd t
    rw [hahead]
    exact ⟨t, List.mem_append_right passed List.mem_cons_self, by omega, by omega⟩
  · have hsize : byteSize piece ≠ 0 := fun hzero => hpiece (byteSize_eq_zero.1 hzero)
    have hlt := hpassed t ht
    exact ⟨t, List.mem_append_left ahead ht, by omega, by omega⟩

/-! ## The scan of a template -/

/-- A tag start is the one that a template has behind `before`: its delimiter is the longest one
there, and it takes along the trim marker in front of `after`, if there is one. -/
structure StartsAt (d : Dialect) (source before : Text) (t : TagStart) (after : Text) : Prop where
  source_eq : source = before ++ (d.opening t.tag ++ after)
  start_eq : t.start = byteSize before
  longest : ∀ tag, tag ≠ t.tag → d.opening tag <+: d.opening t.tag ++ after →
    byteSize (d.opening tag) < byteSize (d.opening t.tag)
  modifier_eq : d.modifierText t.modifier = d.markerAt after
  stop_eq : d.tagStop t = byteSize (before ++ (d.opening t.tag ++ d.markerAt after))

theorem Begins.startsAt (hd : d.defect? = none) {t : TagStart} {source : Text}
    (h : d.Begins t 0 source) : ∃ before after, d.StartsAt source before t after := by
  obtain ⟨before, behind, rfl, htag, hstart⟩ := h
  obtain ⟨⟨after, rfl, hmodifier⟩, hlongest⟩ := tagAt?_longest hd htag
  rw [Nat.zero_add] at hstart
  have htext : d.modifierText t.modifier = d.markerAt after := by
    rw [hmodifier, modifierText_modifierAt_eq]
  refine ⟨before, after, rfl, hstart, hlongest, htext, ?_⟩
  rw [tagStop_eq, startText, htext, byteSize_append before, hstart]

end Dialect

/-- The tag starts of a template are in order and do not overlap, each is the longest that the
template has at its place, with the trim marker behind the delimiter if there is one, and wherever
an opening delimiter stands in the template one of them begins or reaches over the place. -/
theorem Lexer.tagStarts_spec (l : Lexer) (source : Text) :
    (l.dialect.tagStarts source).Pairwise
        (fun s t => s.start < t.start ∧ l.dialect.tagStop s ≤ t.start) ∧
      (∀ t ∈ l.dialect.tagStarts source,
        ∃ before after, l.dialect.StartsAt source before t after) ∧
      ∀ tag before after, source = before ++ (l.dialect.opening tag ++ after) →
        ∃ t ∈ l.dialect.tagStarts source,
          t.start ≤ byteSize before ∧ byteSize before < l.dialect.tagStop t := by
  refine ⟨?_, ?_, ?_⟩
  · apply (Dialect.pairwise_tagStarts l.usable source).imp
    intro s t hle
    have hlt := Dialect.start_lt_tagStop l.usable s
    exact ⟨by omega, hle⟩
  · intro t ht
    exact (Dialect.begins_of_mem_tagStarts l.usable ht).startsAt l.usable
  · intro tag before after hsource
    exact Dialect.exists_tagStart_over l.usable hsource

/-- A dialect in which one delimiter is the beginning of another. -/
example :
    let d := { Dialect.standard with
      print := ⟨['<', '%', '='], ['%', '>']⟩, block := ⟨['<', '%'], ['%', '>']⟩ }
    d.tagStarts ['<', '%', '=', '-', '<', '%', '~'] =
      [⟨.print, 0, some .whole⟩, ⟨.block, 4, some .line⟩] := by decide

end TemplateTokens
