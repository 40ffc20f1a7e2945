import TemplateTokens.Proofs.Zipper

/-!
# Expected tokens

A reader that expects a token may test for it, may move over it if it is there, or may insist on it.
The two moves agree with the test and with each other, except that nothing moves over the last token
of a stream: there a test may hold that no move follows. A move that does not take place leaves the
stream as it is. Looking ahead agrees with moving one token after the other.

Results:

* `TokenStream.nextIf_eq_toOption`: moving if a token is there is insisting on it, with the error
  left out.
* `TokenStream.expect_eq_ok_iff`, `TokenStream.expect_eq_error_iff`: when a token that is insisted
  on is there, and which error it is when it is not.
* `TokenStream.nextTimes_eq_ok_iff`: how far a stream can be moved.
* `TokenStream.matching_agrees`: all of this for any stream, kind, constraint and distance.
-/

namespace TemplateTokens
namespace TokenStream

variable {s s' : TokenStream} {kind : Token.Kind} {constraint : Option Constraint} {t : Token}

/-! ## One move -/

/-- The stream with the cursor on the token behind the current one. -/
def forward (s : TokenStream) (h : s.cursor + 1 < s.tokens.size) : TokenStream :=
  { s with cursor := s.cursor + 1, cursor_lt := h }

/-- The current token passes the test, and there is a token behind it to move to. -/
def Matches (s : TokenStream) (kind : Token.Kind) (constraint : Option Constraint) : Prop :=
  s.test kind constraint = true ∧ s.cursor + 1 < s.tokens.size

instance : Decidable (s.Matches kind constraint) := inferInstanceAs (Decidable (_ ∧ _))

/-- The error where a token that is insisted on is not there. It names the current token if that
fails the test, and stands at it in both cases. -/
def refusal (s : TokenStream) (kind : Token.Kind) (constraint : Option Constraint) :
    SyntaxError where
  cause :=
    if s.test kind constraint then .unexpectedEnd
    else .unexpectedToken s.current.kind s.current.text kind (constraint.map Constraint.description)
  location := s.current.location

theorem expect_of_matches (h : s.Matches kind constraint) :
    s.expect kind constraint = .ok (s.current, s.forward h.2) := by
  rw [expect_eq, if_pos h.1]
  exact next_of_lt h.2

theorem expect_of_not_matches (h : ¬s.Matches kind constraint) :
    s.expect kind constraint = .error (s.refusal kind constraint) := by
  rw [expect_eq, refusal]
  by_cases htest : s.test kind constraint = true
  · have hlast : ¬s.cursor + 1 < s.tokens.size := fun hlt => h ⟨htest, hlt⟩
    rw [if_pos htest, if_pos htest, next_of_not_lt hlast, endError]
  · rw [if_neg htest, if_neg htest]

theorem expect_eq_ok_iff : s.expect kind constraint = .ok (t, s') ↔
    ∃ h : s.Matches kind constraint, t = s.current ∧ s' = s.forward h.2 := by
  by_cases h : s.Matches kind constraint
  · rw [expect_of_matches h]
    constructor
    · rintro ⟨⟩
      exact ⟨h, rfl, rfl⟩
    · rintro ⟨-, rfl, rfl⟩
      rfl
  · rw [expect_of_not_matches h]
    exact iff_of_false nofun fun hmatches => h hmatches.1

theorem expect_eq_error_iff {e : SyntaxError} : s.expect kind constraint = .error e ↔
    ¬s.Matches kind constraint ∧ e = s.refusal kind constraint := by
  by_cases h : s.Matches kind constraint
  · rw [expect_of_matches h]
    exact iff_of_false nofun fun hnot => hnot.1 h
  · rw [expect_of_not_matches h]
    constructor
    · rintro ⟨⟩
      exact ⟨h, rfl⟩
    · rintro ⟨-, rfl⟩
      rfl

/-- Moving over a token if it is there is insisting on it, except that there is no error. -/
theorem nextIf_eq_toOption (s : TokenStream) (kind : Token.Kind) (constraint : Option Constraint) :
    s.nextIf kind constraint = (s.expect kind constraint).toOption := by
  rw [nextIf, expect_eq]
  split <;> rfl

/-! ## Several moves -/

/-- The stream after a number of moves, or the error of the first that fails. -/
def nextTimes : Nat → TokenStream → Except SyntaxError TokenStream
  | 0, s => .ok s
  | n + 1, s => s.next.bind fun moved => nextTimes n moved.2

/-- A stream can be moved as long as the cursor stays on a token. -/
theorem nextTimes_eq_ok_iff {n : Nat} : nextTimes n s = .ok s' ↔
    ∃ h : s.cursor + n < s.tokens.size, s' = { s with cursor := s.cursor + n, cursor_lt := h } := by
  induction n generalizing s with
  | zero =>
    constructor
    · rintro ⟨⟩
      exact ⟨cursor_lt _, rfl⟩
    · rintro ⟨-, rfl⟩
      rfl
  | succ n ih =>
    rw [nextTimes]
    by_cases hlt : s.cursor + 1 < s.tokens.size
    · have hcursor : s.cursor + 1 + n = s.cursor + (n + 1) := by omega
      rw [next_of_lt hlt]
      show nextTimes n (s.forward hlt) = .ok s' ↔ _
      rw [ih]
      simp only [forward, hcursor]
    · rw [next_of_not_lt hlt]
      refine iff_of_false (by rintro ⟨⟩) ?_
      rintro ⟨hfar, -⟩
      omega

/-- The token at a distance is the one that as many moves lead to. -/
theorem look_eq_ok_iff {n : Nat} :
    s.look n = .ok t ↔ ∃ s', nextTimes n s = .ok s' ∧ s'.current = t := by
  simp only [nextTimes_eq_ok_iff]
  by_cases hlt : s.cursor + n < s.tokens.size
  · have hlook : s.look n = .ok s.tokens[s.cursor + n] := by
      rw [look, Array.getElem?_eq_getElem hlt]
    rw [hlook]
    constructor
    · rintro ⟨⟩
      exact ⟨_, ⟨hlt, rfl⟩, rfl⟩
    · rintro ⟨_, ⟨-, rfl⟩, rfl⟩
      rfl
  · have hlook : s.look n = .error s.endError := by
      rw [look, Array.getElem?_eq_none (Nat.le_of_not_lt hlt)]
    rw [hlook]
    refine iff_of_false (by rintro ⟨⟩) ?_
    rintro ⟨_, ⟨hfar, -⟩, -⟩
    exact hlt hfar

/-- Where the moves fail, looking fails too, with an error at the current token: not at the last
one, where the moves fail. -/
theorem look_eq_error_iff {n : Nat} {e : SyntaxError} : s.look n = .error e ↔
    (∃ e', nextTimes n s = .error e') ∧ e = ⟨.unexpectedEnd, s.current.location⟩ := by
  cases hmoves : nextTimes n s with
  | ok s' =>
    have hlook : s.look n = .ok s'.current := look_eq_ok_iff.2 ⟨s', hmoves, rfl⟩
    rw [hlook]
    exact iff_of_false nofun fun h => nomatch h.1
  | error e' =>
    have hlook : s.look n = .error s.endError := by
      cases hlook : s.look n with
      | ok t =>
        obtain ⟨_, hok, -⟩ := look_eq_ok_iff.1 hlook
        rw [hmoves] at hok
        cases hok
      | error e =>
        rw [look] at hlook
        split at hlook
        · cases hlook
        · exact hlook.symm
    rw [hlook, endError]
    constructor
    · rintro ⟨⟩
      exact ⟨⟨e', rfl⟩, rfl⟩
    · rintro ⟨-, rfl⟩
      rfl

/-! ## Every stream -/

/-- For any stream, kind and constraint: a token is moved over, whether it is insisted on or not,
exactly if the test holds and the current token is not the last. It is then the current token, and
both leave the same stream behind. Otherwise both leave the stream as it is, and the error of the
one that insists stands at the current token and names it if the test fails. The token at any
distance is the one that as many moves lead to; where these fail, the error stands at the current
token. -/
theorem matching_agrees (s : TokenStream) (kind : Token.Kind) (constraint : Option Constraint) :
    ((s.nextIf kind constraint).isSome = true ↔ s.Matches kind constraint) ∧
      (∀ t s', s.nextIf kind constraint = some (t, s') ↔ s.expect kind constraint = .ok (t, s')) ∧
      (∀ t s', s.expect kind constraint = .ok (t, s') ↔
        ∃ h : s.Matches kind constraint, t = s.current ∧ s' = s.forward h.2) ∧
      (∀ e, s.expect kind constraint = .error e ↔
        ¬s.Matches kind constraint ∧ e = s.refusal kind constraint) ∧
      (s.perform (.nextIf kind constraint) =
        if h : s.Matches kind constraint then (.token s.current, s.forward h.2)
        else (.absent, s)) ∧
      (s.perform (.expect kind constraint) =
        if h : s.Matches kind constraint then (.token s.current, s.forward h.2)
        else (.refused (s.refusal kind constraint), s)) ∧
      ∀ n, (∀ t, s.look n = .ok t ↔ ∃ s', nextTimes n s = .ok s' ∧ s'.current = t) ∧
        ∀ e, s.look n = .error e ↔
          (∃ e', nextTimes n s = .error e') ∧ e = ⟨.unexpectedEnd, s.current.location⟩ := by
  have hnextIf := s.nextIf_eq_toOption kind constraint
  refine ⟨?_, fun t s' => ?_, fun _ _ => expect_eq_ok_iff, fun _ => expect_eq_error_iff, ?_, ?_,
    fun _ => ⟨fun _ => look_eq_ok_iff, fun _ => look_eq_error_iff⟩⟩
  · by_cases h : s.Matches kind constraint
    · rw [hnextIf, expect_of_matches h]
      exact iff_of_true rfl h
    · rw [hnextIf, expect_of_not_matches h]
      exact iff_of_false nofun h
  · rw [hnextIf]
    cases s.expect kind constraint with
    | ok moved => exact ⟨fun h => congrArg Except.ok (Option.some.inj h), fun h => by cases h; rfl⟩
    | error e => exact iff_of_false nofun nofun
  · by_cases h : s.Matches kind constraint
    · rw [dif_pos h, perform, hnextIf, expect_of_matches h]
      rfl
    · rw [dif_neg h, perform, hnextIf, expect_of_not_matches h]
      rfl
  · by_cases h : s.Matches kind constraint
    · rw [dif_pos h, perform, expect_of_matches h]
    · rw [dif_neg h, perform, expect_of_not_matches h]

end TokenStream
end TemplateTokens
