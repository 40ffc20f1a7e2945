/-!
# Text and its size in bytes

A template, and every piece of one, is a list of Unicode scalar values. Offsets into a template
count the bytes of its UTF-8 form, so this module measures text in bytes and cuts it at a byte
offset.

Results:

* `byteSize_append`: sizes add up.
* `utf8ByteSize_ofList`: the size is that of the string with these characters.
* `takeBytes_append_dropBytes`: a cut loses nothing, wherever it is made.
* `takeBytes_append`, `dropBytes_append`: a cut at the size of a piece separates that piece.
* `eq_of_isPrefix_of_byteSize_eq`: of two beginnings of a text the size tells which is which.
* `isPrefixOf?_eq_some_iff`: what is left behind a beginning.
* `isBoundary_iff`: the offsets that are between two characters.
-/

namespace TemplateTokens

/-- A template or a piece of one, character by character. -/
abbrev Text := List Char

/-! ## Size -/

/-- The size of a text in UTF-8 bytes. -/
def byteSize : Text → Nat
  | [] => 0
  | c :: t => c.utf8Size + byteSize t

@[simp] theorem byteSize_nil : byteSize [] = 0 := rfl

@[simp] theorem byteSize_cons (c : Char) (t : Text) :
    byteSize (c :: t) = c.utf8Size + byteSize t := rfl

@[simp] theorem byteSize_append (s t : Text) : byteSize (s ++ t) = byteSize s + byteSize t := by
  induction s with
  | nil => simp
  | cons c s ih => simp [ih, Nat.add_assoc]

theorem byteSize_eq_zero {t : Text} : byteSize t = 0 ↔ t = [] := by
  cases t with
  | nil => simp
  | cons c t => have := c.utf8Size_pos; simp; omega

/-- The size is that of the text as a string. -/
theorem utf8ByteSize_ofList (t : Text) : (String.ofList t).utf8ByteSize = byteSize t := by
  induction t with
  | nil => rfl
  | cons c t ih =>
    have h : String.ofList (c :: t) = String.singleton c ++ String.ofList t := by simp
    rw [h, String.utf8ByteSize_append, ih, String.utf8ByteSize_singleton, byteSize_cons]

/-! ## Cutting -/

/-- The shortest beginning of a text that has at least `n` bytes, all of it if it is smaller. -/
def takeBytes (n : Nat) : Text → Text
  | [] => []
  | c :: t => if n = 0 then [] else c :: takeBytes (n - c.utf8Size) t

/-- What follows `takeBytes n`: an offset inside a character is moved to its end. -/
def dropBytes (n : Nat) : Text → Text
  | [] => []
  | c :: t => if n = 0 then c :: t else dropBytes (n - c.utf8Size) t

@[simp] theorem takeBytes_zero (t : Text) : takeBytes 0 t = [] := by cases t <;> rfl

@[simp] theorem dropBytes_zero (t : Text) : dropBytes 0 t = t := by cases t <;> rfl

theorem takeBytes_append_dropBytes (n : Nat) (t : Text) : takeBytes n t ++ dropBytes n t = t := by
  induction t generalizing n with
  | nil => rfl
  | cons c t ih => by_cases h : n = 0 <;> simp [takeBytes, dropBytes, h, ih]

theorem takeBytes_append (s t : Text) : takeBytes (byteSize s) (s ++ t) = s := by
  induction s with
  | nil => simp
  | cons c s ih =>
    have h : c.utf8Size ≠ 0 := by have := c.utf8Size_pos; omega
    simp [takeBytes, h, ih]

theorem dropBytes_append (s t : Text) : dropBytes (byteSize s) (s ++ t) = t := by
  induction s with
  | nil => simp
  | cons c s ih =>
    have h : c.utf8Size ≠ 0 := by have := c.utf8Size_pos; omega
    simp [dropBytes, h, ih]

/-! ## Beginnings -/

/-- Two pieces of the same size at the start of a text are the same. -/
theorem eq_of_isPrefix_of_byteSize_eq {v v' t : Text} (h : v <+: t) (h' : v' <+: t)
    (e : byteSize v = byteSize v') : v = v' := by
  obtain ⟨rest, rfl⟩ := h
  obtain ⟨rest', h'⟩ := h'
  rw [← takeBytes_append v rest, e, ← h', takeBytes_append]

theorem isPrefixOf?_eq_some_iff {s t rest : Text} :
    s.isPrefixOf? t = some rest ↔ s ++ rest = t := by
  induction s generalizing t with
  | nil =>
    show some t = some rest ↔ rest = t
    rw [Option.some.injEq, eq_comm]
  | cons c s ih =>
    cases t with
    | nil => exact iff_of_false nofun nofun
    | cons c' t =>
      show (if c == c' then s.isPrefixOf? t else none) = some rest ↔ c :: (s ++ rest) = c' :: t
      by_cases hc : c = c'
      · rw [if_pos (beq_iff_eq.2 hc), ih, hc, List.cons_inj_right]
      · rw [if_neg (fun h => hc (beq_iff_eq.1 h))]
        exact iff_of_false nofun fun h => hc (List.cons.inj h).1

/-! ## Between characters -/

/-- Whether a byte offset into a text is at one of its ends or between two of its characters. -/
def isBoundary : Nat → Text → Bool
  | 0, _ => true
  | _ + 1, [] => false
  | n + 1, c :: t => decide (c.utf8Size ≤ n + 1) && isBoundary (n + 1 - c.utf8Size) t

/-- Such an offset is the size of a beginning. -/
theorem isBoundary_iff {n : Nat} {t : Text} :
    isBoundary n t = true ↔ ∃ before after, t = before ++ after ∧ byteSize before = n := by
  induction t generalizing n with
  | nil =>
    cases n with
    | zero => exact iff_of_true rfl ⟨[], [], rfl, rfl⟩
    | succ n =>
      refine iff_of_false nofun ?_
      rintro ⟨before, after, hsplit, hsize⟩
      rw [(List.nil_eq_append_iff.1 hsplit).1] at hsize
      cases hsize
  | cons c t ih =>
    cases n with
    | zero => exact iff_of_true rfl ⟨[], c :: t, rfl, rfl⟩
    | succ n =>
      rw [isBoundary, Bool.and_eq_true, decide_eq_true_iff, ih]
      constructor
      · rintro ⟨hle, before, after, rfl, hsize⟩
        refine ⟨c :: before, after, rfl, ?_⟩
        rw [byteSize_cons]
        omega
      · rintro ⟨before, after, hsplit, hsize⟩
        cases before with
        | nil => cases hsize
        | cons c' before =>
          cases hsplit
          rw [byteSize_cons] at hsize
          exact ⟨by omega, before, after, rfl, by omega⟩

end TemplateTokens
