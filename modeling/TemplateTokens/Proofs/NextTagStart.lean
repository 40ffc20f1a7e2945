import TemplateTokens.Proofs.Lexer.Run

/-!
# The next tag start

A run takes the next tag start from a scan of the whole template that was made before its first
step, and searches anew where a tag start that it has just passed reaches over the position. A tag
start that it passed in an earlier step is forgotten: one that the position is still inside of can
hide a tag start that begins in it. That is the only way in which the scan misleads.

Results:

* `Dialect.head?_ahead`: a scan ahead of a place against a search from there.
* `State.dataStep_eq`: what a step between tags reads before the tag start it finds.
* `Lexer.nextTagStart_eq_iff`: the next tag start is what a new search would find, unless one is
  hidden; and where it is, no tag opens in the text before it.
-/

namespace TemplateTokens

open Piece

/-! ## A list cut at a place -/

/-- A list whose elements are split by a predicate has one such split only. -/
theorem split_unique {α : Type} {p : α → Prop} {xs ys xs' ys' : List α} (h : xs ++ ys = xs' ++ ys')
    (hxs : ∀ a ∈ xs, p a) (hxs' : ∀ a ∈ xs', p a) (hys : ∀ a ∈ ys.head?, ¬ p a)
    (hys' : ∀ a ∈ ys'.head?, ¬ p a) : xs = xs' ∧ ys = ys' := by
  rcases List.append_eq_append_iff.1 h with ⟨zs, rfl, rfl⟩ | ⟨zs, rfl, rfl⟩
  · cases zs with
    | nil => exact ⟨(List.append_nil _).symm, rfl⟩
    | cons z zs => exact absurd (hxs' z (by simp)) (hys z rfl)
  · cases zs with
    | nil => exact ⟨List.append_nil _, rfl⟩
    | cons z zs => exact absurd (hxs z (by simp)) (hys' z rfl)

namespace Dialect

variable {d : Dialect}

/-- Only one tag start of a scan reaches over a place. -/
theorem reaching_unique {l : List TagStart} (hl : l.Pairwise fun s t => d.tagStop s ≤ t.start)
    {place : Nat} {t u : TagStart} (ht : t ∈ l) (hu : u ∈ l) (htlt : t.start < place)
    (hult : u.start < place) (htstop : place < d.tagStop t) (hustop : place < d.tagStop u) :
    t = u := by
  induction l with
  | nil => cases ht
  | cons s l ih =>
    obtain ⟨hs, hl⟩ := List.pairwise_cons.1 hl
    rcases List.mem_cons.1 ht with rfl | htl
    · rcases List.mem_cons.1 hu with rfl | hul
      · rfl
      · have := hs u hul
        omega
    · rcases List.mem_cons.1 hu with rfl | hul
      · have := hs t htl
        omega
      · exact ih hl htl hul

/-- A scan ahead of a place against a search from there: they agree unless a tag start of the scan
reaches over the place and another begins inside of it. -/
theorem head?_ahead (hd : d.defect? = none) {pre suf : Text} {passed ahead : List TagStart}
    (hscan : d.tagStarts (pre ++ suf) = passed ++ ahead)
    (hpassed : ∀ t ∈ passed, t.start < byteSize pre)
    (hahead : ∀ t ∈ ahead.head?, byteSize pre ≤ t.start) :
    (∀ t ∈ passed, d.tagStop t ≤ byteSize pre) ∧
        ahead.head? = d.firstTagStart? (byteSize pre) suf ∨
      ∃ t ∈ passed, byteSize pre < d.tagStop t ∧
        (ahead.head? = d.firstTagStart? (byteSize pre) suf ↔
          ∀ u, d.firstTagStart? (byteSize pre) suf = some u → d.tagStop t ≤ u.start) := by
  obtain ⟨passed', ahead', hscan', hpassed', hcut⟩ := exists_tagStartsFrom_append hd 0 pre suf
  rw [Nat.zero_add] at hpassed' hcut
  have hbehind : ∀ t ∈ ahead'.head?, byteSize pre ≤ t.start := by
    intro t ht
    rcases hcut with ⟨-, rfl⟩ | ⟨u, -, piece, rest, -, -, hstop, rfl⟩
    · rw [head?_tagStartsFrom] at ht
      exact le_start_of_firstTagStart? ht
    · rw [head?_tagStartsFrom] at ht
      have := le_start_of_firstTagStart? ht
      omega
  obtain ⟨rfl, rfl⟩ := split_unique (p := fun t => t.start < byteSize pre)
    (hscan.symm.trans hscan') hpassed hpassed' (fun t ht => Nat.not_lt.2 (hahead t ht))
    (fun t ht => Nat.not_lt.2 (hbehind t ht))
  rcases hcut with ⟨hends, rfl⟩ | ⟨t, ht, piece, rest, rfl, hpiece, hstop, rfl⟩
  · exact Or.inl ⟨hends, head?_tagStartsFrom _ _⟩
  · have hsize : byteSize piece ≠ 0 := fun h => hpiece (byteSize_eq_zero.1 h)
    refine Or.inr ⟨t, ht, by omega, ?_⟩
    rw [head?_tagStartsFrom]
    constructor
    · intro heq u hu
      exact le_start_of_firstTagStart? (heq.trans hu)
    · intro hall
      rw [hstop] at hall ⊢
      exact (firstTagStart?_append hall).symm

end Dialect

/-! ## The text before the next tag -/

namespace State

/-- The text that a step between tags reads before the tag start it finds. -/
def leadingText (d : Dialect) (s : State) : Text :=
  match (s.nextTagStart d).1 with
  | none => s.rest
  | some t => takeBytes (t.start - s.position.offset) s.rest

/-- That text is what the step makes a token of first. -/
theorem dataStep_eq (lx : Lexicon) (s : State) :
    s.dataStep lx =
      let behind := (s.nextTagStart lx.toDialect).2.emitSome .text (s.leadingText lx.toDialect)
      match (s.nextTagStart lx.toDialect).1 with
      | none => .ok behind
      | some t => behind.tagStartStep lx t := by
  obtain ⟨ts, hts⟩ := nextTagStart_snd s lx.toDialect
  unfold dataStep leadingText
  rcases hnext : s.nextTagStart lx.toDialect with ⟨_ | t, s₁⟩
  · rw [hnext] at hts
    subst hts
    rfl
  · rw [hnext] at hts
    subst hts
    rfl

/-- Where the next tag start is what a search from the position finds, that text ends where the tag
start begins, and is all of the rest if there is none. -/
theorem exists_rest_eq_leadingText_append {d : Dialect} {s : State}
    (heq : (s.nextTagStart d).1 = d.firstTagStart? s.position.offset s.rest) :
    ∃ behind, s.rest = s.leadingText d ++ behind ∧
      ∀ t, d.firstTagStart? s.position.offset s.rest = some t →
        t.start = s.position.offset + byteSize (s.leadingText d) := by
  rw [leadingText, heq]
  cases hfind : d.firstTagStart? s.position.offset s.rest with
  | none => exact ⟨[], (List.append_nil _).symm, nofun⟩
  | some t =>
    obtain ⟨before, after, hsplit, hstart⟩ := Dialect.stands_of_firstTagStart? hfind
    have htake : takeBytes (t.start - s.position.offset) s.rest = before := by
      rw [hstart, Nat.add_sub_cancel_left, hsplit, takeBytes_append]
    dsimp only
    rw [htake]
    refine ⟨d.startText t ++ after, hsplit, ?_⟩
    intro u hu
    obtain rfl := Option.some.inj hu
    exact hstart

/-- A tag start of the scan that was passed in an earlier step reaches over the position, and
another one begins inside of it. -/
def Hidden (d : Dialect) (source : Text) (s : State) : Prop :=
  ∃ t ∈ d.tagStarts source, t ∉ s.tagStarts ∧
    ∃ u, d.tagStartFrom? source s.position.offset = some u ∧ u.start < d.tagStop t

end State

section

variable {lx : Lexicon} {source : Text} {s : State} {ps : List Piece} {ls : List Layer}

theorem Lexicon.Path.tagStartFrom?_eq (h : lx.Path source s ps ls) :
    lx.tagStartFrom? source s.position.offset = lx.firstTagStart? s.position.offset s.rest := by
  have hdrop : dropBytes s.position.offset source = s.rest := by
    rw [h.offset_eq, h.source_eq, dropBytes_append]
  have hsize : byteSize source - byteSize s.rest = s.position.offset := by
    rw [h.source_eq, byteSize_append, ← h.offset_eq, Nat.add_sub_cancel]
  rw [Dialect.tagStartFrom?, hdrop, hsize]

/-- A tag start hides another one if it was passed in an earlier step, and only such a one does. -/
theorem Lexicon.Path.hidden_iff (hd : lx.defect? = none) (h : lx.Path source s ps ls)
    {earlier : List TagStart} (hall : lx.tagStarts source = earlier ++ s.tagStarts) :
    s.Hidden lx.toDialect source ↔ ∃ t ∈ earlier, ∃ u,
      lx.firstTagStart? s.position.offset s.rest = some u ∧ u.start < lx.tagStop t := by
  have hpair := Dialect.pairwise_tagStarts hd source
  rw [State.Hidden, h.tagStartFrom?_eq, hall]
  constructor
  · rintro ⟨t, ht, hnot, hu⟩
    exact ⟨t, (List.mem_append.1 ht).resolve_right hnot, hu⟩
  · rintro ⟨t, ht, hu⟩
    refine ⟨t, List.mem_append_left _ ht, ?_, hu⟩
    intro hnew
    rw [hall] at hpair
    have := (List.pairwise_append.1 hpair).2.2 t ht t hnew
    have := Dialect.start_lt_tagStop hd t
    omega

/-- On a path, the next tag start is what a new search finds unless one is hidden. -/
theorem Lexicon.Path.eq_tagStartFrom?_iff (hd : lx.defect? = none) (h : lx.Path source s ps ls) :
    (s.nextTagStart lx.toDialect).1 = lx.tagStartFrom? source s.position.offset ↔
      ¬ s.Hidden lx.toDialect source := by
  obtain ⟨earlier, hall, hearlier⟩ := h.passed hd
  obtain ⟨now, ahead, hsplit, hnow, hahead, hnext⟩ := s.exists_nextTagStart lx.toDialect
  have hpair := Dialect.pairwise_tagStarts hd source
  rw [hall, hsplit] at hpair
  rw [h.tagStartFrom?_eq, h.hidden_iff hd hall]
  rcases hnext with ⟨⟨t, ht, hreach⟩, hfind, -⟩ | ⟨hends, hfind, -⟩
  · -- the search was made anew: what was passed earlier ends before the tag start that reaches over
    refine iff_of_true hfind ?_
    rintro ⟨t', hmem, u, hu, hlt⟩
    have := (List.pairwise_append.1 hpair).2.2 t' hmem t (List.mem_append_left _ ht)
    have := Dialect.le_start_of_firstTagStart? hu
    have := hnow t ht
    omega
  · have hscan : lx.tagStarts (texts ps ++ s.rest) = (earlier ++ now) ++ ahead := by
      rw [← h.source_eq, hall, hsplit, List.append_assoc]
    have hpassed : ∀ t ∈ earlier ++ now, t.start < s.position.offset := by
      intro t ht
      rcases List.mem_append.1 ht with ht | ht
      · exact hearlier t ht
      · exact hnow t ht
    have hcut := Dialect.head?_ahead hd hscan (h.offset_eq ▸ hpassed) (h.offset_eq ▸ hahead)
    rw [← h.offset_eq] at hcut
    rcases hcut with ⟨hall', heq⟩ | ⟨t, ht, hreach, hiff⟩
    · refine iff_of_true (hfind.trans heq) ?_
      rintro ⟨t', hmem, u, hu, hlt⟩
      have := hall' t' (List.mem_append_left _ hmem)
      have := Dialect.le_start_of_firstTagStart? hu
      omega
    · have hmem : t ∈ earlier := by
        rcases List.mem_append.1 ht with ht | ht
        · exact ht
        · have := hends t ht
          omega
      rw [hfind, hiff]
      constructor
      · -- only one tag start reaches over the position
        rintro hle ⟨t', hmem', u, hu, hlt⟩
        have hreach' : s.position.offset < lx.tagStop t' := by
          have := Dialect.le_start_of_firstTagStart? hu
          omega
        obtain rfl := Dialect.reaching_unique (List.pairwise_append.1 hpair).1 hmem' hmem
          (hearlier t' hmem') (hearlier t hmem) hreach' hreach
        have := hle u hu
        omega
      · intro hnone u hu
        exact Nat.not_lt.1 fun hlt => hnone ⟨t, hmem, u, hu, hlt⟩

/-- Where the next tag start is what a new search finds, no tag opens in the text before it. -/
theorem Lexicon.Path.not_opening_infix (hd : lx.defect? = none) (h : lx.Path source s ps ls)
    (heq : (s.nextTagStart lx.toDialect).1 = lx.tagStartFrom? source s.position.offset)
    (tag : Tag) : ¬ lx.opening tag <:+: s.leadingText lx.toDialect := by
  rintro ⟨before, after, hinfix⟩
  rw [h.tagStartFrom?_eq] at heq
  have hpos : byteSize (lx.opening tag) ≠ 0 := fun h =>
    Dialect.opening_ne_nil hd tag (byteSize_eq_zero.1 h)
  have hsize := congrArg byteSize hinfix
  rw [byteSize_append, byteSize_append] at hsize
  obtain ⟨behind, hbehind, hlt⟩ := State.exists_rest_eq_leadingText_append heq
  rw [← hinfix, List.append_assoc, List.append_assoc] at hbehind
  have hfar : ∀ t, lx.firstTagStart? s.position.offset
      (before ++ (lx.opening tag ++ (after ++ behind))) = some t →
        s.position.offset + byteSize before < t.start := by
    intro t ht
    rw [← hbehind] at ht
    have := hlt t ht
    omega
  exact Dialect.not_opening_prefix_of_lt_firstTagStart? hd hfar tag (List.prefix_append _ _)

end

/-- A dialect in which a block tag begins with a whole print tag, and with the end of a comment. -/
def Dialect.overlapping : Dialect :=
  { standard with
    comment := ⟨['#'], ['/']⟩
    block := ⟨['/', '{', '{', 'a', '}', '}', '{', '{'], ['%', '}']⟩ }

/-- The lexer for that dialect. -/
def Lexer.overlapping : Lexer := ⟨Dialect.overlapping, by decide⟩

/-- A template in that dialect: a comment that ends inside of what looks like a block tag, and two
print tags. -/
def overlappingTemplate : Text :=
  ['#', ' ', '/', '{', '{', 'a', '}', '}', '{', '{', 'b', '}', '}']

/-- In every state of a run that is between tags, the next tag start is what a search from the
position finds, unless a tag start that was passed earlier hides it. Where the two agree no tag
opens in the text before the next one. -/
theorem Lexer.nextTagStart_eq_iff {l : Lexer} {source : Text} {s : State}
    (h : (Lexicon.ofDialect l.dialect).Reachable source s) (hmode : s.mode = .data) :
    ((s.nextTagStart l.dialect).1 = l.dialect.tagStartFrom? source s.position.offset ↔
        ¬ s.Hidden l.dialect source) ∧
      ((s.nextTagStart l.dialect).1 = l.dialect.tagStartFrom? source s.position.offset →
        ∀ tag, ¬ l.dialect.opening tag <:+: s.leadingText l.dialect) := by
  obtain ⟨ps, ls, hpath⟩ | ⟨hlost, -⟩ := h.path_or_lost l.usable
  · exact ⟨hpath.eq_tagStartFrom?_iff l.usable, hpath.not_opening_infix l.usable⟩
  · exact absurd hmode hlost.mode_ne_data

/-- Behind the comment the search is made anew. -/
theorem Lexer.nextTagStart_overlapping : ∃ s,
    (Lexicon.ofDialect Dialect.overlapping).Reachable overlappingTemplate s ∧ s.mode = .data ∧
      s.position.offset = 3 ∧
      ∀ tag, ¬ Dialect.overlapping.opening tag <:+: s.leadingText .overlapping := by
  obtain ⟨s, hrun, hmode, hoffset, hnext⟩ : ∃ s,
      run (.ofDialect .overlapping) 1 (.start .overlapping overlappingTemplate) = .ok s ∧
      s.mode = .data ∧ s.position.offset = 3 ∧ (s.nextTagStart .overlapping).1 =
        Dialect.overlapping.tagStartFrom? overlappingTemplate s.position.offset :=
    ⟨_, rfl, rfl, rfl, by decide⟩
  have hreach := Lexicon.Reachable.start.of_run hrun
  exact ⟨s, hreach, hmode, hoffset, (nextTagStart_eq_iff (l := overlapping) hreach hmode).2 hnext⟩

/-- Behind the first print tag it is not: the second one is hidden and becomes text. -/
theorem Lexer.exists_nextTagStart_ne : ∃ s,
    (Lexicon.ofDialect Dialect.overlapping).Reachable overlappingTemplate s ∧ s.mode = .data ∧
      (s.nextTagStart .overlapping).1 ≠
        Dialect.overlapping.tagStartFrom? overlappingTemplate s.position.offset ∧
      Dialect.overlapping.opening .print <:+: s.leadingText .overlapping := by
  obtain ⟨s, hrun, hmode, hnext, htext⟩ : ∃ s,
      run (.ofDialect .overlapping) 4 (.start .overlapping overlappingTemplate) = .ok s ∧
      s.mode = .data ∧ (s.nextTagStart .overlapping).1 ≠
        Dialect.overlapping.tagStartFrom? overlappingTemplate s.position.offset ∧
      s.leadingText .overlapping = ['{', '{', 'b', '}', '}'] :=
    ⟨_, rfl, rfl, by decide, by decide⟩
  refine ⟨s, Lexicon.Reachable.start.of_run hrun, hmode, hnext, [], ['b', '}', '}'], ?_⟩
  rw [htext]
  rfl

end TemplateTokens
