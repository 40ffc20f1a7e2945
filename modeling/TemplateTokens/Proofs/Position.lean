import Mathlib.Data.List.TakeWhile
import TemplateTokens.Position

/-!
# Reading a text in pieces

A location moves over a text as it would over its characters one by one, where the pair of a
carriage return and a line feed is one step. So a text can be read in pieces, as long as no cut
goes through such a pair.

Results:

* `Location.advance_eq_walk`: moving over a text is moving over its characters.
* `Location.walk_append`: the text may be cut anywhere but inside a line break.
* `Location.walk_append_of_not_cleanCut`: a cut inside of one counts it twice, and that is all.
* `Location.compare_walk`: reading something moves a location forward.
* `Position.advanceBytes_eq`: a loop over the bytes of a text comes to the same position.
* `Position.advance_advance`: positions, which count bytes besides, may be moved in pieces too.
-/

namespace TemplateTokens

/-! ## Line breaks of a text -/

theorem countLineBreaks_cons (c : Char) (t : Text) (h : ¬ (c = '\r' ∧ t.head? = some '\n')) :
    countLineBreaks (c :: t) =
      if isLineBreak c then countLineBreaks t + 1 else countLineBreaks t := by
  rw [countLineBreaks]
  rintro u rfl rfl
  exact h ⟨rfl, rfl⟩

/-- A text has no line break exactly if no character of it is part of one. -/
theorem countLineBreaks_eq_zero {t : Text} :
    countLineBreaks t = 0 ↔ ∀ c ∈ t, isLineBreak c = false := by
  fun_induction countLineBreaks t with
  | case1 => simp
  | case2 t ih => simp [isLineBreak]
  | case3 t c hne hc ih => simp [hc]
  | case4 t c hne hc ih => simp [hc, ih]

theorem lastLineLength_cons (c : Char) (t : Text) :
    lastLineLength (c :: t) =
      if countLineBreaks t = 0 then (if isLineBreak c then t.length else t.length + 1)
      else lastLineLength t := by
  rw [lastLineLength, List.reverse_cons, List.takeWhile_append]
  by_cases h : countLineBreaks t = 0
  · have hall : t.reverse.takeWhile (fun c => !isLineBreak c) = t.reverse := by
      rw [List.takeWhile_eq_self_iff]
      simpa using countLineBreaks_eq_zero.1 h
    rw [hall, if_pos rfl, if_pos h]
    cases hc : isLineBreak c <;> simp [hc]
  · have hlt : (t.reverse.takeWhile (fun c => !isLineBreak c)).length ≠ t.reverse.length := by
      intro he
      have hall := (List.takeWhile_prefix (fun c => !isLineBreak c)).eq_of_length he
      rw [List.takeWhile_eq_self_iff] at hall
      exact h (countLineBreaks_eq_zero.2 (by simpa using hall))
    rw [if_neg hlt, if_neg h, lastLineLength]

/-! ## Character by character -/

namespace Location

/-- The location reached from `l` by reading a text one character after the other: a carriage
return with a line feed behind it, or one of the two alone, begins a new line, and any other
character is one more column. -/
def walk (l : Location) : Text → Location
  | [] => l
  | '\r' :: '\n' :: t => walk ⟨l.line + 1, 1⟩ t
  | c :: t => if isLineBreak c then walk ⟨l.line + 1, 1⟩ t else walk ⟨l.line, l.column + 1⟩ t

@[simp] theorem walk_nil (l : Location) : l.walk [] = l := rfl

theorem advance_of_eq_zero (l : Location) {t : Text} (h : countLineBreaks t = 0) :
    l.advance t = ⟨l.line, l.column + t.length⟩ := if_pos h

theorem advance_of_ne_zero (l : Location) {t : Text} (h : countLineBreaks t ≠ 0) :
    l.advance t = ⟨l.line + countLineBreaks t, 1 + lastLineLength t⟩ := if_neg h

/-- Behind a line break a location moves as from the beginning of the next line. -/
theorem advance_break (l : Location) {s t : Text} (hs : countLineBreaks (s ++ t) =
      countLineBreaks t + 1) (hl : lastLineLength (s ++ t) =
      if countLineBreaks t = 0 then t.length else lastLineLength t) :
    l.advance (s ++ t) = advance ⟨l.line + 1, 1⟩ t := by
  rw [advance_of_ne_zero l (by omega), hs, hl]
  by_cases h : countLineBreaks t = 0
  · rw [advance_of_eq_zero _ h, if_pos h, h]
  · rw [advance_of_ne_zero _ h, if_neg h, Nat.add_assoc, Nat.add_comm 1 (countLineBreaks t)]

/-- Moving over a text is moving over its characters. -/
theorem advance_eq_walk (l : Location) (t : Text) : l.advance t = l.walk t := by
  fun_induction walk l t with
  | case1 l => rfl
  | case2 l t ih =>
    rw [← ih]
    have hcount : countLineBreaks ('\n' :: t) = countLineBreaks t + 1 :=
      countLineBreaks_cons '\n' t (by simp)
    refine advance_break l (s := ['\r', '\n']) rfl ?_
    show lastLineLength ('\r' :: '\n' :: t) = _
    rw [lastLineLength_cons, if_neg (by omega), lastLineLength_cons]
    rfl
  | case3 l c t hne hc ih =>
    rw [← ih]
    have hcount := countLineBreaks_cons c t fun ⟨hr, hn⟩ => by
      obtain ⟨u, rfl⟩ := List.head?_eq_some_iff.1 hn
      exact hne u hr rfl
    rw [if_pos hc] at hcount
    refine advance_break l (s := [c]) hcount ?_
    show lastLineLength (c :: t) = _
    rw [lastLineLength_cons, if_pos hc]
  | case4 l c t hne hc ih =>
    rw [← ih]
    have hcount := countLineBreaks_cons c t fun ⟨hr, _⟩ => hc (by rw [hr]; rfl)
    rw [if_neg hc] at hcount
    by_cases h : countLineBreaks t = 0
    · rw [advance_of_eq_zero l (by omega), advance_of_eq_zero _ h, List.length_cons,
        Nat.add_assoc, Nat.add_comm 1 t.length]
    · rw [advance_of_ne_zero l (by omega), advance_of_ne_zero _ h, hcount, lastLineLength_cons,
        if_neg h]

end Location

/-! ## Cuts -/

/-- The cut between two texts does not go through a line break of two characters. -/
def CleanCut (s t : Text) : Prop := ¬ (s.getLast? = some '\r' ∧ t.head? = some '\n')

theorem cleanCut_nil_right (s : Text) : CleanCut s [] := fun h => nomatch h.2

theorem cleanCut_of_getLast? {s t : Text} (h : s.getLast? ≠ some '\r') : CleanCut s t :=
  fun hcut => h hcut.1

theorem cleanCut_of_head? {s t : Text} (h : t.head? ≠ some '\n') : CleanCut s t :=
  fun hcut => h hcut.2

/-- A cut stays clean when the text behind it is made shorter. -/
theorem CleanCut.of_append {s t u : Text} (h : CleanCut s (t ++ u)) : CleanCut s t := by
  rintro ⟨hs, ht⟩
  refine h ⟨hs, ?_⟩
  obtain ⟨t', rfl⟩ := List.head?_eq_some_iff.1 ht
  rfl

namespace Location

/-- Reading a text in two pieces, cut anywhere but inside a line break. -/
theorem walk_append (l : Location) {s t : Text} (h : CleanCut s t) :
    l.walk (s ++ t) = (l.walk s).walk t := by
  fun_induction walk l s with
  | case1 l => rfl
  | case2 l s ih =>
    have hs : CleanCut s t := by
      rintro ⟨hr, hn⟩
      refine h ⟨?_, hn⟩
      rw [List.getLast?_cons, List.getLast?_cons, hr]
      rfl
    exact ih hs
  | case3 l c s hne hc ih =>
    have hs : CleanCut s t := by
      rintro ⟨hr, hn⟩
      refine h ⟨?_, hn⟩
      rw [List.getLast?_cons, hr]
      rfl
    rw [List.cons_append, walk, if_pos hc]
    · exact ih hs
    · intro u hr hu
      cases s with
      | nil => exact h ⟨by rw [hr]; rfl, by rw [show t = '\n' :: u from hu]; rfl⟩
      | cons b s => exact hne s hr (by rw [(List.cons.inj hu).1])
  | case4 l c s hne hc ih =>
    have hs : CleanCut s t := by
      rintro ⟨hr, hn⟩
      refine h ⟨?_, hn⟩
      rw [List.getLast?_cons, hr]
      rfl
    rw [List.cons_append, walk, if_neg hc]
    · exact ih hs
    · intro u hr
      exact absurd (by rw [hr]; rfl) hc

/-- A location one line below moves as the one above it does. -/
theorem walk_below (l : Location) (t : Text) :
    walk ⟨l.line + 1, l.column⟩ t = ⟨(l.walk t).line + 1, (l.walk t).column⟩ := by
  rw [← advance_eq_walk, ← advance_eq_walk]
  by_cases h : countLineBreaks t = 0
  · rw [advance_of_eq_zero _ h, advance_of_eq_zero _ h]
  · rw [advance_of_ne_zero _ h, advance_of_ne_zero _ h, Nat.add_right_comm]

/-- A cut inside a line break makes two of it, so the second piece ends one line further down. -/
theorem walk_append_of_not_cleanCut (l : Location) {s t : Text} (h : ¬ CleanCut s t) :
    (l.walk s).walk t = ⟨(l.walk (s ++ t)).line + 1, (l.walk (s ++ t)).column⟩ := by
  obtain ⟨hs, ht⟩ := not_not.1 h
  obtain ⟨s, rfl⟩ := List.getLast?_eq_some_iff.1 hs
  obtain ⟨t, rfl⟩ := List.head?_eq_some_iff.1 ht
  -- the line break is behind `s` and before `t`: two characters, or one and one
  have hcut (u : Text) : CleanCut s ('\r' :: u) := cleanCut_of_head? (by simp)
  rw [List.append_assoc, l.walk_append (hcut []), List.singleton_append, l.walk_append (hcut _)]
  exact walk_below ⟨(l.walk s).line + 1, 1⟩ t

/-- Reading something moves a location forward: to a later line or to a later column. -/
theorem compare_walk (l : Location) {t : Text} (h : t ≠ []) : compare l (l.walk t) = .lt := by
  rw [← advance_eq_walk]
  have hpos := List.length_pos_iff.2 h
  show (compare l.line (l.advance t).line).then (compare l.column (l.advance t).column) = .lt
  by_cases hc : countLineBreaks t = 0
  · have hcol : compare l.column (l.column + t.length) = .lt := Nat.compare_eq_lt.2 (by omega)
    rw [advance_of_eq_zero l hc, hcol, Nat.compare_eq_eq.2 rfl]
    rfl
  · have hline : compare l.line (l.line + countLineBreaks t) = .lt :=
      Nat.compare_eq_lt.2 (by omega)
    rw [advance_of_ne_zero l hc, hline]
    rfl

end Location

/-! ## Byte by byte -/

/-- The bytes of a text in UTF-8. -/
def utf8Bytes (t : Text) : List UInt8 := t.flatMap String.utf8EncodeChar

@[simp] theorem utf8Bytes_cons (c : Char) (t : Text) :
    utf8Bytes (c :: t) = String.utf8EncodeChar c ++ utf8Bytes t := List.flatMap_cons

theorem length_utf8Bytes (t : Text) : (utf8Bytes t).length = byteSize t := by
  induction t with
  | nil => rfl
  | cons c t ih =>
    rw [utf8Bytes_cons, List.length_append, String.length_utf8EncodeChar, ih, byteSize_cons]

/-- A byte below 128 is a character of its own. -/
theorem utf8EncodeChar_of_mem {c : Char} {b : UInt8} (hb : b ∈ String.utf8EncodeChar c)
    (hsmall : b.toNat < 128) : c.toNat = b.toNat := by
  have hsize (n : Nat) : (UInt8.ofNat n).toNat = n % 256 := UInt8.toNat_ofNat'
  have hmem := List.mem_map_of_mem (f := UInt8.toNat) hb
  rw [String.utf8EncodeChar] at hmem
  show c.val.toNat = b.toNat
  -- one form for each number of bytes; in the longer ones every byte is at least 128
  split_ifs at hmem
  all_goals
    simp only [List.map_cons, List.map_nil, hsize, List.mem_cons, List.not_mem_nil,
      or_false] at hmem
    omega

theorem eq_of_mem_utf8EncodeChar {b : UInt8} {c a : Char} (hb : b ∈ String.utf8EncodeChar c)
    (ha : a.toNat = b.toNat) (hsmall : a.toNat < 128) : c = a := by
  have hc := utf8EncodeChar_of_mem hb (by omega)
  exact Char.toNat_inj.1 (hc.trans ha.symm)

/-- The bytes of a text begin with a line feed only if the text does. -/
theorem head?_of_utf8Bytes {t : Text} {bytes : List UInt8} (h : utf8Bytes t = 10 :: bytes) :
    t.head? = some '\n' := by
  cases t with
  | nil => cases h
  | cons c t =>
    have hmem : (10 : UInt8) ∈ String.utf8EncodeChar c := by
      have hpos := c.utf8Size_pos
      rw [utf8Bytes_cons] at h
      cases hc : String.utf8EncodeChar c with
      | nil =>
        have hlength := String.length_utf8EncodeChar c
        rw [hc, List.length_nil] at hlength
        omega
      | cons b bytes =>
        rw [hc] at h
        rw [(List.cons.inj h).1]
        exact List.mem_cons_self
    rw [eq_of_mem_utf8EncodeChar (a := '\n') hmem rfl (by decide)]
    rfl

/-! ## The loop over the bytes -/

/-- A scan of bytes for line breaks: how many it has passed, and the offset behind the last one. -/
structure BreakScan where
  breaks : Nat
  lineStart : Option Nat

namespace BreakScan

/-- Goes on over bytes that begin at offset `i`. -/
def run (scan : BreakScan) (i : Nat) : List UInt8 → BreakScan
  | [] => scan
  | 13 :: 10 :: bytes => run ⟨scan.breaks + 1, some (i + 2)⟩ (i + 2) bytes
  | b :: bytes =>
    if b = 13 ∨ b = 10 then run ⟨scan.breaks + 1, some (i + 1)⟩ (i + 1) bytes
    else run scan (i + 1) bytes

variable {scan : BreakScan}

theorem run_plain {plain : List UInt8} (h : ∀ b ∈ plain, ¬ (b = 13 ∨ b = 10)) (i : Nat)
    (bytes : List UInt8) : run scan i (plain ++ bytes) = run scan (i + plain.length) bytes := by
  induction plain generalizing i with
  | nil => rfl
  | cons b plain ih =>
    obtain ⟨hb, hplain⟩ := List.forall_mem_cons.1 h
    rw [List.cons_append, run.eq_3, if_neg hb, ih hplain, List.length_cons]
    · congr 1
      omega
    · intro _ hcr _
      exact hb (Or.inl hcr)

/-- A character that is no line break is passed over, whatever its bytes are. -/
theorem run_char {c : Char} (hc : isLineBreak c = false) (i : Nat) (bytes : List UInt8) :
    run scan i (String.utf8EncodeChar c ++ bytes) = run scan (i + c.utf8Size) bytes := by
  rw [run_plain, String.length_utf8EncodeChar]
  rintro b hb (rfl | rfl)
  · rw [eq_of_mem_utf8EncodeChar (a := '\r') hb rfl (by decide)] at hc
    cases hc
  · rw [eq_of_mem_utf8EncodeChar (a := '\n') hb rfl (by decide)] at hc
    cases hc

end BreakScan

/-- What a text has before its last line: all of it up to the last line break. -/
def beforeLastLine (t : Text) : Text := (t.reverse.dropWhile fun c => !isLineBreak c).reverse

theorem length_dropBytes_beforeLastLine (t : Text) :
    (dropBytes (byteSize (beforeLastLine t)) t).length = lastLineLength t := by
  have hsplit : beforeLastLine t ++ (t.reverse.takeWhile fun c => !isLineBreak c).reverse = t := by
    rw [beforeLastLine, ← List.reverse_append, List.takeWhile_append_dropWhile,
      List.reverse_reverse]
  have hdrop := dropBytes_append (beforeLastLine t)
    (t.reverse.takeWhile fun c => !isLineBreak c).reverse
  rw [hsplit] at hdrop
  rw [hdrop, List.length_reverse, lastLineLength]

theorem beforeLastLine_eq_nil {t : Text} : beforeLastLine t = [] ↔ countLineBreaks t = 0 := by
  rw [beforeLastLine, List.reverse_eq_nil_iff, List.dropWhile_eq_nil_iff, countLineBreaks_eq_zero]
  simp

theorem beforeLastLine_cons {c : Char} {t : Text}
    (h : isLineBreak c = true ∨ countLineBreaks t ≠ 0) :
    beforeLastLine (c :: t) = c :: beforeLastLine t := by
  rw [beforeLastLine, List.reverse_cons, List.dropWhile_append]
  split
  · rename_i hnil
    have hnone : beforeLastLine t = [] :=
      List.reverse_eq_nil_iff.2 (List.isEmpty_iff.1 hnil)
    have hc : isLineBreak c = true := h.resolve_right fun hne => hne (beforeLastLine_eq_nil.1 hnone)
    rw [hnone]
    simp [hc]
  · simp [beforeLastLine]

namespace BreakScan

/-- What a scan has found behind a text: nothing new, or all line breaks of the text and the offset
of its last line. -/
def behind (scan : BreakScan) (i : Nat) (t : Text) : BreakScan :=
  if countLineBreaks t = 0 then scan
  else ⟨scan.breaks + countLineBreaks t, some (i + byteSize (beforeLastLine t))⟩

/-- A line break at the start of a text is found first. -/
theorem behind_break (scan : BreakScan) (i : Nat) (newline : Text) {t : Text}
    (hcount : countLineBreaks (newline ++ t) = countLineBreaks t + 1)
    (hbefore : beforeLastLine (newline ++ t) = newline ++ beforeLastLine t) :
    behind ⟨scan.breaks + 1, some (i + byteSize newline)⟩ (i + byteSize newline) t =
      behind scan i (newline ++ t) := by
  have hne : countLineBreaks (newline ++ t) ≠ 0 := by omega
  rw [behind, behind, if_neg hne, hcount, hbefore, byteSize_append]
  by_cases h : countLineBreaks t = 0
  · rw [if_pos h, h, beforeLastLine_eq_nil.2 h]
    rfl
  · rw [if_neg h]
    simp only [BreakScan.mk.injEq, Option.some.injEq]
    omega

/-- The loop over the bytes of a text passes its line breaks and stops behind the last one. -/
theorem run_utf8Bytes (scan : BreakScan) (i : Nat) (t : Text) :
    run scan i (utf8Bytes t) = behind scan i t := by
  fun_induction countLineBreaks t generalizing scan i with
  | case1 => rfl
  | case2 t ih =>
    have hbefore : beforeLastLine (['\r', '\n'] ++ t) = ['\r', '\n'] ++ beforeLastLine t :=
      (beforeLastLine_cons (Or.inl rfl)).trans
        (congrArg ('\r' :: ·) (beforeLastLine_cons (Or.inl rfl)))
    exact (ih _ _).trans (behind_break scan i ['\r', '\n'] rfl hbefore)
  | case3 c t hne hc ih =>
    have hcount := countLineBreaks_cons c t fun ⟨hr, hn⟩ => by
      obtain ⟨u, rfl⟩ := List.head?_eq_some_iff.1 hn
      exact hne u hr rfl
    rw [if_pos hc] at hcount
    have hbehind := behind_break scan i [c] hcount (beforeLastLine_cons (Or.inl hc))
    refine Eq.trans ?_ hbehind
    rw [← ih, utf8Bytes_cons]
    simp only [isLineBreak, Bool.or_eq_true, decide_eq_true_eq] at hc
    rcases hc with rfl | rfl
    · show run scan i (13 :: utf8Bytes t) = _
      rw [run.eq_3, if_pos (Or.inl rfl)]
      · rfl
      · intro bytes _ hbytes
        obtain ⟨u, rfl⟩ := List.head?_eq_some_iff.1 (head?_of_utf8Bytes hbytes)
        exact hne u rfl rfl
    · show run scan i (10 :: utf8Bytes t) = _
      rw [run.eq_3, if_pos (Or.inr rfl)]
      · rfl
      · intro bytes hcr _
        exact absurd hcr (by decide)
  | case4 c t hne hc ih =>
    have hcount := countLineBreaks_cons c t fun ⟨hr, _⟩ => hc (by rw [hr]; rfl)
    rw [if_neg hc] at hcount
    rw [utf8Bytes_cons, run_char (by simpa using hc), ih, behind, behind, hcount]
    by_cases h : countLineBreaks t = 0
    · rw [if_pos h, if_pos h]
    · rw [if_neg h, if_neg h, beforeLastLine_cons (Or.inr h), byteSize_cons, Nat.add_assoc]

end BreakScan

/-! ## Positions -/

namespace Position

/-- The position reached from `p` by reading a text one character after the other: a line begins as
for a location, and the offset grows by the size of every character. -/
def walk (p : Position) : Text → Position
  | [] => p
  | '\r' :: '\n' :: t => walk ⟨⟨p.line + 1, 1⟩, p.offset + '\r'.utf8Size + '\n'.utf8Size⟩ t
  | c :: t =>
    if isLineBreak c then walk ⟨⟨p.line + 1, 1⟩, p.offset + c.utf8Size⟩ t
    else walk ⟨⟨p.line, p.column + 1⟩, p.offset + c.utf8Size⟩ t

theorem walk_eq (p : Position) (t : Text) :
    p.walk t = ⟨p.toLocation.walk t, p.offset + byteSize t⟩ := by
  fun_induction walk p t with
  | case1 p => rfl
  | case2 p t ih =>
    rw [ih, byteSize_cons, byteSize_cons, ← Nat.add_assoc, ← Nat.add_assoc]
    rfl
  | case3 p c t hne hc ih =>
    rw [ih, byteSize_cons, ← Nat.add_assoc, Location.walk, if_pos hc]
    exact hne
  | case4 p c t hne hc ih =>
    rw [ih, byteSize_cons, ← Nat.add_assoc, Location.walk, if_neg hc]
    exact hne

/-- Moving over a text is moving over its characters. -/
theorem advance_eq_walk (p : Position) (t : Text) : p.advance t = p.walk t := by
  rw [walk_eq, ← Location.advance_eq_walk]
  rfl

/-- The position reached from `p` by a loop over the bytes of a text, which counts the line breaks
and remembers where the last line begins; the characters from there on are the columns. -/
def advanceBytes (p : Position) (t : Text) : Position :=
  let scan := BreakScan.run ⟨0, none⟩ 0 (utf8Bytes t)
  let offset := p.offset + (utf8Bytes t).length
  match scan.lineStart with
  | some start => ⟨⟨p.line + scan.breaks, 1 + (dropBytes start t).length⟩, offset⟩
  | none => ⟨⟨p.line, p.column + t.length⟩, offset⟩

/-- The loop comes to the position that reading the text comes to. -/
theorem advanceBytes_eq (p : Position) (t : Text) : p.advanceBytes t = p.advance t := by
  rw [advanceBytes, BreakScan.run_utf8Bytes, length_utf8Bytes, advance, BreakScan.behind]
  by_cases h : countLineBreaks t = 0
  · rw [if_pos h, Location.advance_of_eq_zero _ h]
  · rw [if_neg h, Location.advance_of_ne_zero _ h]
    dsimp only
    rw [Nat.zero_add, Nat.zero_add, length_dropBytes_beforeLastLine]

/-- A text may be read in two pieces, cut anywhere. A cut inside a line break makes two line breaks
of it and changes nothing else, and the result is that of reading character by character. -/
theorem advance_advance (p : Position) (s t : Text) :
    ((p.advance s).advance t).offset = (p.advance (s ++ t)).offset ∧
      ((p.advance s).advance t).column = (p.advance (s ++ t)).column ∧
      ((p.advance s).advance t).line = (p.advance (s ++ t)).line +
        (if s.getLast? = some '\r' ∧ t.head? = some '\n' then 1 else 0) ∧
      p.advance s = p.walk s := by
  have hoffset : ((p.advance s).advance t).offset = (p.advance (s ++ t)).offset := by
    rw [offset_advance, offset_advance, offset_advance, byteSize_append, Nat.add_assoc]
  have htwo : ((p.advance s).advance t).toLocation = (p.toLocation.walk s).walk t := by
    rw [toLocation_advance, toLocation_advance, Location.advance_eq_walk, Location.advance_eq_walk]
  have hone : (p.advance (s ++ t)).toLocation = p.toLocation.walk (s ++ t) :=
    p.toLocation.advance_eq_walk (s ++ t)
  rw [htwo, hone]
  by_cases hcut : CleanCut s t
  · rw [← p.toLocation.walk_append hcut, if_neg hcut]
    exact ⟨hoffset, rfl, rfl, p.advance_eq_walk s⟩
  · rw [p.toLocation.walk_append_of_not_cleanCut hcut, if_pos (not_not.1 hcut)]
    exact ⟨hoffset, rfl, rfl, p.advance_eq_walk s⟩

/-- A line break read in one piece and in two. -/
example : Position.start.advance ['\r', '\n'] = ⟨⟨2, 1⟩, 2⟩ ∧
    (Position.start.advance ['\r']).advance ['\n'] = ⟨⟨3, 1⟩, 2⟩ := ⟨rfl, rfl⟩

end Position

end TemplateTokens
