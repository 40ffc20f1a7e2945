import TemplateTokens.Proofs.Lexeme.Piece
import TemplateTokens.Proofs.Lexeme.TagStart

/-!
# More text behind

A matcher is given all that remains of a template, but a character that it cannot pass keeps it
from looking further. Behind such a character, a *stop*, the text may go on in any way: the matcher
finds the same. The closing brace at the end of a tag is a stop for all the matchers inside the tag,
as long as no operator is written with it.

Results:

* `isPrefixOf?_append_of_mem`, `takeWhile_append_of_mem`, `afterBlanks?_append`,
  `Dialect.afterModifier?_append`, `search?_append`: ways of matching on a longer text.
* `operatorAt?_append`, `name?_append`, `number?_append`, `Lexicon.lexemeAt?_append`: so for the
  pieces of an expression; a string is read in another way only if all that remained of the shorter
  text was a piece of it.
* `Dialect.printEnd?_append`, `Dialect.blockEnd?_append`, `Dialect.commentEnd?_append`,
  `Dialect.wordTag?_append`, `Dialect.verbatimClose?_append`, `Dialect.search?_tagAt?_append`: so
  for the delimiters of tags.
-/

namespace TemplateTokens

variable {α β : Type} {t more : Text} {c : Char}

/-! ## Ways of matching -/

theorem findSome?_congr {f g : α → Option β} {l : List α} (h : ∀ a ∈ l, f a = g a) :
    l.findSome? f = l.findSome? g := by
  induction l with
  | nil => rfl
  | cons a l ih =>
    rw [List.findSome?_cons, List.findSome?_cons, h a List.mem_cons_self,
      ih fun b hb => h b (List.mem_cons_of_mem a hb)]

/-- What begins a text and does not reach into its second part begins the first part. -/
theorem isPrefix_left_of_append {w : Text} (h : ∀ b, w = t ++ b → b <+: more → b = [])
    (hw : w <+: t ++ more) : w <+: t := by
  obtain hin | ⟨b, rfl⟩ := List.prefix_or_prefix_of_prefix hw (List.prefix_append t more)
  · exact hin
  · obtain rfl := h b rfl ((List.prefix_append_right_inj t).1 hw)
    simp

theorem isPrefixOf?_append_of_overlap {w : Text} (h : ∀ b, w = t ++ b → b <+: more → b = []) :
    w.isPrefixOf? (t ++ more) = (w.isPrefixOf? t).map (· ++ more) := by
  cases hmore : w.isPrefixOf? (t ++ more) with
  | none =>
    have hnone : w.isPrefixOf? t = none := by
      refine Option.eq_none_iff_forall_ne_some.2 fun rest hrest => ?_
      rw [← isPrefixOf?_eq_some_iff.1 hrest, List.append_assoc,
        isPrefixOf?_eq_some_iff.2 rfl] at hmore
      cases hmore
    rw [hnone]
    rfl
  | some rest =>
    obtain ⟨behind, rfl⟩ := isPrefix_left_of_append h ⟨rest, isPrefixOf?_eq_some_iff.1 hmore⟩
    rw [isPrefixOf?_eq_some_iff.2 rfl, Option.map_some, ← hmore, List.append_assoc,
      isPrefixOf?_eq_some_iff.2 rfl]

/-- A text is not found at the end of a shorter text if that ends inside of it. -/
theorem isPrefixOf?_append {w : Text} (h : t <+: w → t = w) :
    w.isPrefixOf? (t ++ more) = (w.isPrefixOf? t).map (· ++ more) := by
  refine isPrefixOf?_append_of_overlap ?_
  rintro b rfl -
  exact List.append_right_eq_self.1 (h (List.prefix_append t b)).symm

theorem isPrefixOf?_append_of_length {w : Text} (h : w.length ≤ t.length) :
    w.isPrefixOf? (t ++ more) = (w.isPrefixOf? t).map (· ++ more) :=
  isPrefixOf?_append fun hpre => hpre.eq_of_length_le h

/-- A text that has a stop at its end at most is found or not found in front of the stop. -/
theorem isPrefixOf?_append_of_mem {w : Text} (ht : c ∈ t) (hw : c ∉ w.dropLast) :
    w.isPrefixOf? (t ++ more) = (w.isPrefixOf? t).map (· ++ more) := by
  refine isPrefixOf?_append ?_
  rintro ⟨r, rfl⟩
  by_cases hr : r = []
  · rw [hr, List.append_nil]
  · rw [List.dropLast_append_of_ne_nil hr] at hw
    exact absurd (List.mem_append_left _ ht) hw

theorem takeWhile_append_of_mem {p : Char → Bool} (ht : c ∈ t) (hc : p c = false) :
    (t ++ more).takeWhile p = t.takeWhile p := by
  induction t with
  | nil => cases ht
  | cons b t ih =>
    cases hb : p b with
    | false => simp [hb]
    | true =>
      have hmem : c ∈ t := by
        rcases List.mem_cons.1 ht with rfl | hmem
        · rw [hb] at hc
          cases hc
        · exact hmem
      simp [hb, ih hmem]

theorem dropWhile_append_of_takeWhile {p : Char → Bool}
    (h : (t ++ more).takeWhile p = t.takeWhile p) :
    (t ++ more).dropWhile p = t.dropWhile p ++ more := by
  have hall := List.takeWhile_append_dropWhile (p := p) (l := t ++ more)
  rw [h] at hall
  conv at hall => rhs; rw [← List.takeWhile_append_dropWhile (p := p) (l := t)]
  rw [List.append_assoc] at hall
  exact List.append_cancel_left hall

theorem dropWhile_append_of_mem {p : Char → Bool} (ht : c ∈ t) (hc : p c = false) :
    (t ++ more).dropWhile p = t.dropWhile p ++ more :=
  dropWhile_append_of_takeWhile (takeWhile_append_of_mem ht hc)

/-- What is dropped has no stop. -/
theorem mem_dropWhile {p : Char → Bool} (ht : c ∈ t) (hc : p c = false) : c ∈ t.dropWhile p := by
  rw [← List.takeWhile_append_dropWhile (p := p) (l := t)] at ht
  rcases List.mem_append.1 ht with hmem | hmem
  · rw [List.all_eq_true.1 List.all_takeWhile c hmem] at hc
    cases hc
  · exact hmem

theorem mem_of_mem_append {s t : Text} (h : c ∈ s ++ t) (hs : c ∉ s) : c ∈ t :=
  (List.mem_append.1 h).resolve_left hs

theorem mem_behind_blanks {run rest : Text} (h : c ∈ run ++ rest) (hrun : run.all isBlank = true)
    (hc : isBlank c = false) : c ∈ rest := by
  refine mem_of_mem_append h fun hmem => ?_
  rw [List.all_eq_true.1 hrun c hmem] at hc
  cases hc

theorem mem_of_isPrefixOf? {w rest : Text} (h : w.isPrefixOf? t = some rest) (ht : c ∈ t)
    (hw : c ∉ w) : c ∈ rest := by
  rw [← isPrefixOf?_eq_some_iff.1 h] at ht
  exact mem_of_mem_append ht hw

/-- What a matcher finds behind a run of blanks, where the matcher finds the same on a longer
text. -/
theorem afterBlanks?_append {find : Text → Option α} {f : α → α} (ht : c ∈ t)
    (hc : isBlank c = false) (h : ∀ run rest, t = run ++ rest → run.all isBlank = true →
      find (rest ++ more) = (find rest).map f) :
    afterBlanks? find (t ++ more) = (afterBlanks? find t).map (Prod.map id f) := by
  induction t with
  | nil => cases ht
  | cons b t ih =>
    have hhere := h [] (b :: t) rfl rfl
    rw [List.cons_append] at hhere
    rw [List.cons_append, afterBlanks?, afterBlanks?, hhere]
    cases hb : isBlank b with
    | false => simp [Function.comp_def]
    | true =>
      have hmem : c ∈ t := by
        rcases List.mem_cons.1 ht with rfl | hmem
        · rw [hb] at hc
          cases hc
        · exact hmem
      rw [ih hmem fun run rest hrest hrun =>
        h (b :: run) rest (by rw [hrest]; rfl) (by simp [hb, hrun])]
      cases afterBlanks? find t <;> simp [Function.comp_def]

theorem Dialect.modifierText_length_le (d : Dialect) (m : Option Trim) :
    (d.modifierText m).length ≤ 1 := by
  rcases m with _ | m
  · exact Nat.zero_le _
  · exact Nat.le_refl _

/-- What a matcher finds behind a trim marker, where the matcher finds the same on a longer text. -/
theorem Dialect.afterModifier?_append {d : Dialect} {find : Text → Option α} {f : α → α}
    (ht : t ≠ []) (h : ∀ m rest, t = d.modifierText m ++ rest →
      find (rest ++ more) = (find rest).map f) :
    d.afterModifier? find (t ++ more) = (d.afterModifier? find t).map (Prod.map id f) := by
  rw [afterModifier?, afterModifier?, List.map_findSome?]
  refine findSome?_congr fun m _ => ?_
  have hlength := Nat.le_trans (d.modifierText_length_le m) (List.length_pos_iff.2 ht)
  rw [isPrefixOf?_append_of_length hlength, Function.comp_apply]
  cases hm : (d.modifierText m).isPrefixOf? t with
  | none => rfl
  | some rest =>
    simp only [Option.map_some, Option.bind_some, h m rest (isPrefixOf?_eq_some_iff.1 hm).symm]
    cases find rest <;> rfl

/-- What is made of a find can be made of it behind the blanks. -/
theorem afterBlanks?_map {find : Text → Option α} {g : α → β} (t : Text) :
    afterBlanks? (fun t => (find t).map g) t = (afterBlanks? find t).map (Prod.map id g) := by
  induction t with
  | nil => simp [afterBlanks?, Function.comp_def]
  | cons b t ih =>
    rw [afterBlanks?, afterBlanks?, ih]
    cases isBlank b <;> cases afterBlanks? find t <;> cases find (b :: t) <;> rfl

/-- And behind the trim marker. -/
theorem Dialect.afterModifier?_map {d : Dialect} {find : Text → Option α} {g : α → β} (t : Text) :
    d.afterModifier? (fun t => (find t).map g) t =
      (d.afterModifier? find t).map (Prod.map id g) := by
  rw [afterModifier?, afterModifier?, List.map_findSome?]
  refine findSome?_congr fun m _ => ?_
  rw [Function.comp_apply]
  cases (d.modifierText m).isPrefixOf? t with
  | none => rfl
  | some rest => cases h : find rest <;> simp [h]

/-- A search finds the same on a longer text if the matcher does at every place up to the find. -/
theorem search?_append {find : Text → Option α} {before after : Text} {found : α}
    (h : search? find (before ++ after) = some (before, found))
    (hfind : ∀ pre suf, before = pre ++ suf →
      find (suf ++ (after ++ more)) = find (suf ++ after)) :
    search? find (before ++ (after ++ more)) = some (before, found) := by
  induction before with
  | nil =>
    have hhere := hfind [] [] rfl
    have hfound : find after = some found := by
      obtain ⟨after', heq, hfound⟩ := search?_sound h
      rw [show after = after' from heq]
      exact hfound
    rw [List.nil_append, List.nil_append, hfound] at hhere
    rw [List.nil_append]
    cases hall : after ++ more with
    | nil =>
      rw [hall] at hhere
      rw [search?, hhere]
      rfl
    | cons b u =>
      rw [hall] at hhere
      rw [search?, hhere]
  | cons b before ih =>
    have hhere := hfind [] (b :: before) rfl
    rw [List.cons_append] at h hhere ⊢
    rw [search?] at h ⊢
    rw [List.cons_append] at hhere
    rw [hhere]
    cases hnone : find (b :: (before ++ after)) with
    | some found' =>
      rw [hnone] at h
      cases h
    | none =>
      rw [hnone] at h
      obtain ⟨⟨before', found'⟩, h', heq⟩ := Option.map_eq_some_iff.1 h
      cases heq
      dsimp only
      rw [ih h' fun pre suf hsplit => hfind (b :: pre) suf (by rw [hsplit]; rfl)]
      rfl

/-! ## Operators -/

namespace Operator

/-- An operator takes up its words and white space. -/
theorem mem_of_wordsAt? {ws : List Text} {v : Text} (h : wordsAt? ws t = some v) (hc : c ∈ v) :
    isWhiteSpace c = true ∨ ∃ w ∈ ws, c ∈ w := by
  fun_induction wordsAt? ws t generalizing v with
  | case1 =>
    cases h
    cases hc
  | case2 t w =>
    cases h
    exact Or.inr ⟨_, List.mem_singleton_self _, hc⟩
  | case3 => cases h
  | case4 w ws t hne ih =>
    simp only [Option.bind_eq_some_iff] at h
    obtain ⟨rest, -, h⟩ := h
    split at h
    · cases h
    · obtain ⟨later, hlater, rfl⟩ := Option.map_eq_some_iff.1 h
      rcases List.mem_append.1 hc with hc | hc
      · rcases List.mem_append.1 hc with hc | hc
        · exact Or.inr ⟨w, List.mem_cons_self, hc⟩
        · exact Or.inl (List.all_eq_true.1 List.all_takeWhile c hc)
      · rcases ih rest hlater hc with hspace | ⟨w', hw', hmem⟩
        · exact Or.inl hspace
        · exact Or.inr ⟨w', List.mem_cons_of_mem w hw', hmem⟩

theorem wordsAt?_append {ws : List Text} (ht : c ∈ t) (hspace : isWhiteSpace c = false)
    (hw : ∀ w ∈ ws, c ∉ w) : wordsAt? ws (t ++ more) = wordsAt? ws t := by
  fun_induction wordsAt? ws t with
  | case1 => rfl
  | case2 w t hpre =>
    rw [wordsAt?, if_pos]
    rw [List.isPrefixOf_iff_prefix] at hpre ⊢
    exact List.prefix_append_of_prefix hpre
  | case3 w t hpre =>
    have hmem : c ∉ w.dropLast := fun hmem =>
      hw w (List.mem_singleton_self w) (List.dropLast_subset w hmem)
    rw [wordsAt?, if_neg]
    rw [List.isPrefixOf_iff_prefix] at hpre ⊢
    rintro ⟨r, hr⟩
    have hsome : w.isPrefixOf? (t ++ more) = (w.isPrefixOf? t).map (· ++ more) :=
      isPrefixOf?_append_of_mem ht hmem
    rw [isPrefixOf?_eq_some_iff.2 hr] at hsome
    obtain ⟨r', hr', -⟩ := Option.map_eq_some_iff.1 hsome.symm
    exact hpre ⟨r', isPrefixOf?_eq_some_iff.1 hr'⟩
  | case4 w ws t hne ih =>
    have hword : c ∉ w := hw w List.mem_cons_self
    have hmem : c ∉ w.dropLast := fun hmem => hword (List.dropLast_subset w hmem)
    rw [wordsAt?.eq_3 _ w ws hne, isPrefixOf?_append_of_mem ht hmem, Option.bind_map]
    cases hrest : w.isPrefixOf? t with
    | none => rfl
    | some rest =>
      have hstop := mem_of_isPrefixOf? hrest ht hword
      have hdrop := mem_dropWhile hstop hspace
      simp only [Option.bind_some, Function.comp_apply, takeWhile_append_of_mem hstop hspace,
        dropWhile_append_of_mem hstop hspace,
        ih rest hdrop fun w' hw' => hw w' (List.mem_cons_of_mem w hw')]

theorem at?_append {o : Operator} (ht : c ∈ t) (hspace : isWhiteSpace c = false)
    (hw : ∀ w ∈ o.words, c ∉ w) : o.at? (t ++ more) = o.at? t := by
  rw [at?, at?, wordsAt?_append ht hspace hw]
  cases hfound : wordsAt? o.words t with
  | none => rfl
  | some found =>
    obtain ⟨rest, rfl⟩ := wordsAt?_sound hfound
    have hstop : c ∉ found := by
      intro hmem
      rcases mem_of_wordsAt? hfound hmem with hc | ⟨w, hmemw, hc⟩
      · rw [hspace] at hc
        cases hc
      · exact hw w hmemw hc
    simp only [Option.bind_some, List.append_assoc, List.drop_left]
    cases rest with
    | nil =>
      rw [List.append_nil] at ht
      exact absurd ht hstop
    | cons b rest => rfl

end Operator

theorem operatorAt?_append {operators : List Operator} (ht : c ∈ t)
    (hspace : isWhiteSpace c = false) (hw : ∀ o ∈ operators, ∀ w ∈ o.words, c ∉ w) :
    operatorAt? operators (t ++ more) = operatorAt? operators t :=
  findSome?_congr fun o ho => Operator.at?_append ht hspace (hw o ho)

/-- A character that no operator of a dialect is written with is in no word of its lexicon. -/
theorem Lexicon.not_mem_words {d : Dialect} (hd : ∀ o ∈ d.operators, c ∉ o) (hc : c ≠ '=') :
    ∀ o ∈ (ofDialect d).ranked, ∀ w ∈ o.words, c ∉ w := by
  intro o ho w hw hmem
  obtain ⟨text, htext, rfl⟩ := List.mem_map.1 (show o ∈ vocabulary d.operators from ho)
  have htext : text ∈ withAssignment d.operators := mem_largestFirst.1 htext
  have hflat : c ∈ (splitWords text).flatten := List.mem_flatten.2 ⟨w, hw, hmem⟩
  rw [flatten_splitWords] at hflat
  have hin : c ∈ text := (List.mem_filter.1 hflat).1
  unfold withAssignment at htext
  split at htext
  · exact hd text htext hin
  · rcases List.mem_append.1 htext with htext | htext
    · exact hd text htext hin
    · rw [List.mem_singleton.1 htext] at hin
      exact hc (List.mem_singleton.1 hin)

/-! ## Names and numbers -/

theorem name?_append (ht : c ∈ t) (hc : isNameRest c = false) : name? (t ++ more) = name? t := by
  cases t with
  | nil => cases ht
  | cons b t =>
    rw [List.cons_append, name?, name?]
    rcases List.mem_cons.1 ht with rfl | hmem
    · have hstart : isNameStart c = false := by
        rw [isNameRest, Bool.or_eq_false_iff] at hc
        exact hc.1
      rw [hstart]
      rfl
    · rw [takeWhile_append_of_mem hmem hc]

theorem fractionAt_append (ht : c ∈ t) (hc : c.isDigit = false) (hpoint : c ≠ '.') :
    fractionAt (t ++ more) = fractionAt t := by
  cases t with
  | nil => cases ht
  | cons b t =>
    rw [List.cons_append]
    by_cases hb : b = '.'
    · subst hb
      rw [fractionAt, fractionAt,
        takeWhile_append_of_mem ((List.mem_cons.1 ht).resolve_left hpoint) hc]
    · unfold fractionAt
      split
      · rename_i heq
        exact absurd (List.cons.inj heq).1 hb
      · split
        · rename_i heq
          exact absurd (List.cons.inj heq).1 hb
        · rfl

theorem number?_append (ht : c ∈ t) (hc : c.isDigit = false) (hpoint : c ≠ '.') :
    number? (t ++ more) = number? t := by
  rw [number?, number?, takeWhile_append_of_mem ht hc, dropWhile_append_of_mem ht hc,
    fractionAt_append (mem_dropWhile ht hc) hc hpoint]

/-! ## Strings -/

theorem quotedBody?_append {quote : Char} {barred : Char → Bool} {body : Text} (hq : quote ≠ '\\')
    (h : quotedBody? quote barred t = some body) :
    quotedBody? quote barred (t ++ more) = some body := by
  fun_induction quotedBody? quote barred t generalizing body with
  | case1 => cases h
  | case2 b t ih =>
    obtain ⟨body', h', rfl⟩ := Option.map_eq_some_iff.1 h
    rw [List.cons_append, List.cons_append, quotedBody?, ih h']
    rfl
  | case3 t =>
    rw [List.cons_append, quotedBody?, if_pos rfl]
    · exact h
    · exact fun _ _ hb _ => hq hb
  | case4 => cases h
  | case5 b t hne hb hbarred ih =>
    obtain ⟨body', h', rfl⟩ := Option.map_eq_some_iff.1 h
    rw [List.cons_append, quotedBody?, if_neg hb, if_neg hbarred, ih h']
    · rfl
    · intro _ _ hescape _
      simp [hescape] at hbarred

/-- A body that ends only behind the text has no end and no interpolation in it: all of the text is
a piece of a string. -/
theorem stringPiece_eq_of_quotedBody? {opening body : Text} (hopening : opening ≠ [])
    (h : quotedBody? '"' (fun c => opening.head? == some c) t = none)
    (hmore : quotedBody? '"' (fun c => opening.head? == some c) (t ++ more) = some body) :
    stringPiece opening t = t := by
  fun_induction quotedBody? '"' (fun c => opening.head? == some c) t generalizing body with
  | case1 => rfl
  | case2 b t ih =>
    rw [List.cons_append, List.cons_append, quotedBody?] at hmore
    obtain ⟨body', hmore, -⟩ := Option.map_eq_some_iff.1 hmore
    rw [stringPiece, ih (Option.map_eq_none_iff.1 h) hmore]
  | case3 => cases h
  | case4 b t hne hb hbarred =>
    by_cases hescape : b = '\\'
    · subst hescape
      cases t with
      | nil => rfl
      | cons b t => exact absurd rfl (hne b t rfl)
    · rw [List.cons_append, quotedBody?, if_neg hb, if_pos hbarred] at hmore
      · cases hmore
      · exact fun _ _ h _ => hescape h
  | case5 b t hne hb hbarred ih =>
    simp only [Bool.or_eq_true, decide_eq_true_eq, beq_iff_eq, not_or] at hbarred
    obtain ⟨hescape, hhead⟩ := hbarred
    have hnot : opening.isPrefixOf (b :: t) = false := by
      rw [Bool.eq_false_iff]
      intro hpre
      obtain ⟨r, hr⟩ := List.isPrefixOf_iff_prefix.1 hpre
      cases opening with
      | nil => exact hopening rfl
      | cons o opening => exact hhead (congrArg some (List.cons.inj hr).1)
    rw [List.cons_append, quotedBody?, if_neg hb, if_neg (by simp [hescape, hhead])] at hmore
    · obtain ⟨body', hmore, -⟩ := Option.map_eq_some_iff.1 hmore
      rw [stringPiece, hnot, Bool.and_false, if_neg Bool.false_ne_true,
        ih (Option.map_eq_none_iff.1 h) hmore]
      · exact hb
      · exact fun _ _ h _ => hescape h
    · exact fun _ _ h _ => hescape h

theorem Dialect.quotedString?_append {d : Dialect} {string : QuotedString}
    (h : d.quotedString? t = some string) : d.quotedString? (t ++ more) = some string := by
  unfold quotedString? at h
  split at h
  · obtain ⟨body, hbody, rfl⟩ := Option.map_eq_some_iff.1 h
    rw [List.cons_append, quotedString?, quotedBody?_append (by decide) hbody]
    rfl
  · obtain ⟨body, hbody, rfl⟩ := Option.map_eq_some_iff.1 h
    rw [List.cons_append, quotedString?, quotedBody?_append (by decide) hbody]
    rfl
  · cases h

/-- A piece of a string that does not reach to the end of the text ends where it does on a longer
text. -/
theorem stringPiece_append {opening : Text} (hlength : opening.length ≤ 2)
    (h : stringPiece opening t ≠ t) : stringPiece opening (t ++ more) = stringPiece opening t := by
  fun_induction stringPiece opening t with
  | case1 => exact absurd rfl h
  | case2 => rfl
  | case3 b t ih =>
    rw [List.cons_append, List.cons_append, stringPiece, ih fun heq => h (by rw [heq])]
  | case4 b t hquote hescape hpre =>
    simp only [Bool.and_eq_true, decide_eq_true_eq] at hpre
    have hpre' : opening.isPrefixOf (b :: (t ++ more)) = true := by
      rw [List.isPrefixOf_iff_prefix] at hpre ⊢
      exact List.prefix_append_of_prefix hpre.2
    rw [List.cons_append, stringPiece, hpre', Bool.and_true, if_pos (by simpa using hpre.1)]
    · exact hquote
    · exact fun _ _ h _ => hpre.1 h
  | case5 b t hquote hescape hnot ih =>
    have hne : t ≠ [] := by
      rintro rfl
      exact h rfl
    have hpos := List.length_pos_iff.2 hne
    have hsame : opening.isPrefixOf (b :: (t ++ more)) = opening.isPrefixOf (b :: t) := by
      rw [Bool.eq_iff_iff, List.isPrefixOf_iff_prefix, List.isPrefixOf_iff_prefix]
      refine ⟨fun hpre => ?_, fun hpre => hpre.trans (List.prefix_append (b :: t) more)⟩
      refine List.prefix_of_prefix_length_le hpre (List.prefix_append (b :: t) more) ?_
      rw [List.length_cons]
      omega
    rw [List.cons_append, stringPiece, hsame, if_neg hnot, ih fun heq => h (by rw [heq])]
    · exact hquote
    · rintro b' u rfl hu
      cases t with
      | nil => exact hne rfl
      | cons b'' t => exact hescape b'' t rfl rfl

/-! ## Interpolations -/

theorem Dialect.interpolationOpen?_append {d : Dialect} (ht : c ∈ t) (hc : isBlank c = false)
    (hopening : c ∉ d.interpolation.opening) :
    d.interpolationOpen? (t ++ more) = d.interpolationOpen? t := by
  have hmem : c ∉ d.interpolation.opening.dropLast := fun hmem =>
    hopening (List.dropLast_subset _ hmem)
  rw [interpolationOpen?, interpolationOpen?, isPrefixOf?_append_of_mem ht hmem]
  cases hrest : d.interpolation.opening.isPrefixOf? t with
  | none => rfl
  | some rest =>
    have hstop := mem_of_isPrefixOf? hrest ht hopening
    rw [Option.map_some, Option.map_some, Option.map_some, blanks, takeWhile_append_of_mem hstop hc]
    rfl

theorem Dialect.interpolationClose?_append {d : Dialect} (ht : c ∈ t) (hc : isBlank c = false)
    (hclosing : c ∉ d.interpolation.closing.dropLast) :
    d.interpolationClose? (t ++ more) = d.interpolationClose? t := by
  have hfind : ∀ run rest, t = run ++ rest → run.all isBlank = true →
      d.interpolation.closing.isPrefixOf? (rest ++ more) =
        (d.interpolation.closing.isPrefixOf? rest).map (· ++ more) := by
    rintro run rest rfl hrun
    exact isPrefixOf?_append_of_mem (mem_behind_blanks ht hrun hc) hclosing
  rw [interpolationClose?, interpolationClose?, afterBlanks?_append ht hc hfind, Option.map_map]
  rfl

/-! ## Pieces of an expression -/

/-- A character that ends every piece of an expression in front of it, strings apart. -/
structure Lexicon.Stops (lx : Lexicon) (c : Char) : Prop where
  not_isWhiteSpace : isWhiteSpace c = false
  not_isNameRest : isNameRest c = false
  not_isDigit : c.isDigit = false
  ne_point : c ≠ '.'
  not_mem_words : ∀ o ∈ lx.ranked, ∀ w ∈ o.words, c ∉ w

/-- A piece of an expression is found on a longer text as well, unless it is the quote of a string
of which all that remained was one piece. -/
theorem Lexicon.lexemeAt?_append {lx : Lexicon} {first : Char} {l : Lexeme} (ht : c ∈ first :: t)
    (hc : lx.Stops c) (hopening : lx.interpolation.opening ≠ [])
    (h : lx.lexemeAt? first (first :: t) = some l)
    (hquote : l = .quote → first = '"' → stringPiece lx.interpolation.opening t ≠ t) :
    lx.lexemeAt? first (first :: (t ++ more)) = some l := by
  rw [← List.cons_append]
  unfold lexemeAt? at h ⊢
  rw [operatorAt?_append ht hc.not_isWhiteSpace hc.not_mem_words, name?_append ht hc.not_isNameRest,
    number?_append ht hc.not_isDigit hc.ne_point]
  revert h
  -- all but the strings are decided in front of the stop
  cases operatorAt? lx.ranked (first :: t) with
  | some v => exact id
  | none =>
  cases name? (first :: t) with
  | some v => exact id
  | none =>
  cases number? (first :: t) with
  | some v => exact id
  | none =>
  cases closerOf? [first] with
  | some closer => exact id
  | none =>
  cases isClosingBracket [first] with
  | true => exact id
  | false =>
  cases isSeparator first with
  | true => exact id
  | false =>
  intro h
  cases hstring : lx.quotedString? (first :: t) with
  | some string =>
    rw [hstring] at h
    rw [Dialect.quotedString?_append hstring]
    exact h
  | none =>
    rw [hstring] at h
    obtain ⟨hfirst, hl⟩ : first = '"' ∧ Lexeme.quote = l := by simpa using h
    subst hfirst
    have hnone : lx.quotedString? ('"' :: (t ++ more)) = none := by
      rw [Dialect.quotedString?, Option.map_eq_none_iff] at hstring ⊢
      refine Option.eq_none_iff_forall_ne_some.2 fun body hbody => ?_
      exact hquote hl.symm rfl (stringPiece_eq_of_quotedBody? hopening hstring hbody)
    rw [List.cons_append, hnone]
    exact h

/-! ## Line breaks -/

/-- Only at the end of a text and behind a carriage return there can a line break go on. -/
theorem lineBreakAt_append_of_ne (hnil : t ≠ []) (hreturn : t ≠ ['\r']) :
    lineBreakAt (t ++ more) = lineBreakAt t := by
  match t with
  | [] => exact absurd rfl hnil
  | [c] =>
    have hc : c ≠ '\r' := fun h => hreturn (by rw [h])
    by_cases hfeed : c = '\n' <;> simp [lineBreakAt, hc, hfeed]
  | c :: c' :: t =>
    by_cases hc : c = '\r' <;> by_cases hfeed : c = '\n' <;> by_cases hc' : c' = '\n' <;>
      simp_all [lineBreakAt]

/-- And there it does not if no line break begins the text behind. -/
theorem lineBreakAt_append (h : ∀ c ∈ more.head?, isLineBreak c = false) (t : Text) :
    lineBreakAt (t ++ more) = lineBreakAt t := by
  have hends (hshort : t = [] ∨ t = ['\r']) : lineBreakAt (t ++ more) = lineBreakAt t := by
    cases more with
    | nil => rw [List.append_nil]
    | cons c more =>
      have hc := h c rfl
      simp only [isLineBreak, Bool.or_eq_false_iff, decide_eq_false_iff_not] at hc
      rcases hshort with rfl | rfl <;> simp [lineBreakAt, hc.1, hc.2]
  by_cases hnil : t = []
  · exact hends (Or.inl hnil)
  by_cases hreturn : t = ['\r']
  · exact hends (Or.inr hreturn)
  · exact lineBreakAt_append_of_ne hnil hreturn

/-! ## Delimiters of tags -/

namespace Dialect

variable {d : Dialect}

/-- A character that no trim marker is, and that is not skipped as a blank. -/
structure Stops (d : Dialect) (c : Char) : Prop where
  not_isBlank : isBlank c = false
  not_mem_modifierText : ∀ m, c ∉ d.modifierText m

theorem printEnd?_append (ht : t ≠ []) (h : ∀ m rest, t = d.modifierText m ++ rest →
      rest <+: d.print.closing → rest = d.print.closing) :
    d.printEnd? (t ++ more) = d.printEnd? t := by
  have hfind : ∀ m rest, t = d.modifierText m ++ rest →
      d.print.closing.isPrefixOf? (rest ++ more) =
        (d.print.closing.isPrefixOf? rest).map (· ++ more) :=
    fun m rest hsplit => isPrefixOf?_append (h m rest hsplit)
  rw [printEnd?, printEnd?, afterModifier?_append ht hfind, Option.map_map]
  rfl

theorem closingLine?_eq (closing : Text) : closingLine? closing =
    fun t => (closing.isPrefixOf? t).map fun rest => closing ++ lineBreakAt rest := rfl

/-- The closing delimiter behind a trim marker. -/
theorem afterModifier?_closing_append {closing : Text} (ht : c ∈ t) (hc : d.Stops c)
    (hclosing : c ∉ closing.dropLast) : d.afterModifier? closing.isPrefixOf? (t ++ more) =
      (d.afterModifier? closing.isPrefixOf? t).map (Prod.map id (· ++ more)) := by
  refine afterModifier?_append (List.ne_nil_of_mem ht) ?_
  rintro m rest rfl
  exact isPrefixOf?_append_of_mem (mem_of_mem_append ht (hc.not_mem_modifierText m)) hclosing

/-- And that behind blanks. -/
theorem afterBlanks?_closing_append {closing : Text} (ht : c ∈ t) (hc : d.Stops c)
    (hclosing : c ∉ closing.dropLast) :
    afterBlanks? (d.afterModifier? closing.isPrefixOf?) (t ++ more) =
      (afterBlanks? (d.afterModifier? closing.isPrefixOf?) t).map
        (Prod.map id (Prod.map id (· ++ more))) := by
  refine afterBlanks?_append ht hc.not_isBlank ?_
  rintro run rest rfl hall
  exact afterModifier?_closing_append (mem_behind_blanks ht hall hc.not_isBlank) hc hclosing

theorem blockEnd?_eq_map (t : Text) : d.blockEnd? t =
    (d.afterModifier? d.block.closing.isPrefixOf? t).map fun found =>
      ⟨found.1, d.block.closing ++ lineBreakAt found.2⟩ := by
  rw [blockEnd?, closingLine?_eq, afterModifier?_map, Option.map_map]
  rfl

/-- The end of a block tag is found as it is on a longer text if its line break does not go on
there. -/
theorem blockEnd?_append (ht : c ∈ t) (hc : d.Stops c) (hclosing : c ∉ d.block.closing.dropLast)
    (hline : ∀ m rest, d.afterModifier? d.block.closing.isPrefixOf? t = some (m, rest) →
      lineBreakAt (rest ++ more) = lineBreakAt rest) :
    d.blockEnd? (t ++ more) = d.blockEnd? t := by
  rw [blockEnd?_eq_map, blockEnd?_eq_map, afterModifier?_closing_append ht hc hclosing,
    Option.map_map]
  refine Option.map_congr fun found hfound => ?_
  rw [Function.comp_apply, Prod.map_fst, Prod.map_snd, id_eq, hline found.1 found.2 hfound]

/-- So is the end of a comment. -/
theorem commentEnd?_append {e : CommentEnd} (hc : d.Stops c) (hmem : c ∈ d.comment.closing)
    (hclosing : c ∉ d.comment.closing.dropLast) (h : d.commentEnd? t = some e)
    (hline : ∀ rest, t = e.before ++ (e.blank ++ (d.modifierText e.modifier ++
        (d.comment.closing ++ rest))) → e.delimiter = d.comment.closing ++ lineBreakAt rest →
      lineBreakAt (rest ++ more) = lineBreakAt rest) :
    d.commentEnd? (t ++ more) = some e := by
  obtain ⟨⟨before, found⟩, hsearch, rfl⟩ := Option.map_eq_some_iff.1 h
  obtain ⟨after, rfl, hafter⟩ := search?_sound hsearch
  have hfind (t : Text) :
      afterBlanks? (d.afterModifier? (closingLine? d.comment.closing)) t =
        (afterBlanks? (d.afterModifier? d.comment.closing.isPrefixOf?) t).map
          (Prod.map id (Prod.map id fun rest => d.comment.closing ++ lineBreakAt rest)) := by
    rw [← afterBlanks?_map]
    exact congrArg (afterBlanks? · t) (funext fun t => afterModifier?_map t)
  rw [hfind] at hafter
  obtain ⟨⟨blank, m, rest⟩, hfound, rfl⟩ := Option.map_eq_some_iff.1 hafter
  obtain ⟨behind, rfl, -, hbehind⟩ := afterBlanks?_sound hfound
  obtain ⟨last, rfl, hlast⟩ := afterModifier?_sound hbehind
  obtain rfl := isPrefixOf?_eq_some_iff.1 hlast
  have hstop : c ∈ blank ++ (d.modifierText m ++ (d.comment.closing ++ rest)) := by simp [hmem]
  rw [commentEnd?, List.append_assoc, search?_append hsearch]
  · rfl
  intro pre suf hsplit
  rw [hfind, hfind, ← List.append_assoc,
    afterBlanks?_closing_append (List.mem_append_right suf hstop) hc hclosing]
  cases suf with
  | nil =>
    rw [List.nil_append, hfound]
    simp only [Option.map_some, Prod.map_apply, id_eq, hline rest rfl rfl]
  | cons b suf =>
    have hnone := search?_first hsearch rfl hsplit (List.cons_ne_nil b suf)
    rw [hfind, Option.map_eq_none_iff] at hnone
    rw [hnone]
    rfl

/-- A tag that holds one word is found or not found in front of a stop. -/
theorem wordTag?_append {word : Text} (hc : d.Stops c) (hopening : c ∉ d.block.opening)
    (hword : c ∉ word) (hclosing : c ∉ d.block.closing.dropLast) (ht : c ∈ t) :
    d.wordTag? word (t ++ more) = d.wordTag? word t := by
  have hopen : c ∉ d.block.opening.dropLast := fun hmem => hopening (List.dropLast_subset _ hmem)
  have hword' : c ∉ word.dropLast := fun hmem => hword (List.dropLast_subset _ hmem)
  -- what stands before the word
  have hinside {find : Text → Option (Text × Option Trim)}
      (hfind : ∀ rest, c ∈ rest → find (rest ++ more) = find rest) {rest : Text}
      (hrest : c ∈ rest) :
      d.afterModifier? (afterBlanks? find) (rest ++ more) =
        d.afterModifier? (afterBlanks? find) rest := by
    rw [afterModifier?_append (List.ne_nil_of_mem hrest) (f := id), Prod.map_id, Option.map_id]
    · rfl
    · rintro m behind rfl
      have hbehind := mem_of_mem_append hrest (hc.not_mem_modifierText m)
      rw [afterBlanks?_append hbehind hc.not_isBlank (f := id), Prod.map_id]
      rintro run last rfl hall
      rw [Option.map_id]
      exact hfind last (mem_behind_blanks hbehind hall hc.not_isBlank)
  rw [wordTag?, wordTag?, isPrefixOf?_append_of_mem ht hopen, Option.bind_map]
  cases hin : d.block.opening.isPrefixOf? t with
  | none => rfl
  | some inside =>
    rw [Option.bind_some, Option.bind_some, Function.comp_apply]
    dsimp only
    rw [hinside _ (mem_of_isPrefixOf? hin ht hopening)]
    intro rest hrest
    rw [isPrefixOf?_append_of_mem hrest hword', Option.bind_map]
    cases hbehind : word.isPrefixOf? rest with
    | none => rfl
    | some behind =>
      rw [Option.bind_some, Option.bind_some, Function.comp_apply,
        afterBlanks?_closing_append (mem_of_isPrefixOf? hbehind hrest hword) hc hclosing,
        Option.map_map]
      rfl

theorem verbatimClose?_append {body : Text} {tag : VerbatimTag} (hc : d.Stops c)
    (hopening : c ∉ d.block.opening) (hword : c ∉ "endverbatim".toList)
    (hmem : c ∈ d.block.closing) (hclosing : c ∉ d.block.closing.dropLast)
    (h : d.verbatimClose? t = some (body, tag)) :
    d.verbatimClose? (t ++ more) = some (body, tag) := by
  obtain ⟨after, rfl, hafter⟩ := search?_sound h
  have hstop : c ∈ after := by
    obtain ⟨rest, hrest⟩ := (wordTag?_sound hafter).1
    rw [← hrest]
    simp [hmem]
  rw [verbatimClose?, List.append_assoc]
  refine search?_append h fun pre suf hsplit => ?_
  rw [← List.append_assoc]
  exact wordTag?_append hc hopening hword hclosing (List.mem_append_right suf hstop)

theorem modifierAt_append (ht : t ≠ []) : d.modifierAt (t ++ more) = d.modifierAt t := by
  cases t with
  | nil => exact absurd rfl ht
  | cons b t => rfl

theorem tagAt?_append (ht : ∀ tag, (d.opening tag).length < t.length) :
    d.tagAt? (t ++ more) = d.tagAt? t := by
  refine findSome?_congr fun tag _ => ?_
  rw [isPrefixOf?_append_of_length (Nat.le_of_lt (ht tag)), Option.map_map]
  cases hrest : (d.opening tag).isPrefixOf? t with
  | none => rfl
  | some rest =>
    have hne : rest ≠ [] := by
      rintro rfl
      have hlength := ht tag
      rw [← isPrefixOf?_eq_some_iff.1 hrest, List.append_nil] at hlength
      exact Nat.lt_irrefl _ hlength
    simp only [Option.map_some, Function.comp_apply, modifierAt_append hne]

/-- The first tag start of a text is that of a longer one if more text than a delimiter is left
there. -/
theorem search?_tagAt?_append {before after : Text} {found : Tag × Option Trim}
    (h : search? d.tagAt? (before ++ after) = some (before, found))
    (hafter : ∀ tag, (d.opening tag).length < after.length) :
    search? d.tagAt? (before ++ (after ++ more)) = some (before, found) := by
  refine search?_append h fun pre suf _ => ?_
  rw [← List.append_assoc]
  refine tagAt?_append fun tag => ?_
  have := hafter tag
  rw [List.length_append]
  omega

/-- Searching for the first tag start, told from the text alone. -/
theorem firstTagStart?_eq_search? (hd : d.defect? = none) (offset : Nat) (text : Text) :
    d.firstTagStart? offset text =
      (search? d.tagAt? text).map fun (before, tag, m) => ⟨tag, offset + byteSize before, m⟩ := by
  induction text generalizing offset with
  | nil =>
    have hnone : d.tagAt? [] = none :=
      tagAt?_eq_none_iff.2 fun tag hpre => opening_ne_nil hd tag (List.prefix_nil.1 hpre)
    rw [search?, hnone]
    rfl
  | cons b text ih =>
    rw [firstTagStart?, search?]
    cases htag : d.tagAt? (b :: text) with
    | some found => rfl
    | none =>
      dsimp only
      rw [ih, Option.map_map]
      simp only [Function.comp_def, byteSize_cons, Nat.add_assoc]

end Dialect

end TemplateTokens
