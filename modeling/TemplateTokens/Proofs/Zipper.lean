import TemplateTokens.TokenStream

/-!
# A stream is a row of tokens cut in two

A reader of a token stream sees no cursor. All that a stream answers is told by a row of tokens cut
in two in front of the current token: moving takes a token from one part to the other, tokens are
put in at the cut, and going back joins the two parts again.

Results:

* `TokenStream.Shows.current_eq`: the current token is the first of the second part.
* `TokenStream.Shows.perform`: an operation answers and does on a stream what it answers and does
  on the two parts.
* `TokenStream.Shows.run`: so do operations one after the other.
* `Zipper.answers_replicate_next`: reading on gives every token of the second part but the last,
  and then fails forever.
* `TokenStream.run_eq_zipper_run`: all of this from any row of tokens and after any operations.
-/

namespace TemplateTokens

/-! ## Operations -/

namespace TokenStream

/-- Something that is asked of a stream. -/
inductive Operation where
  | next
  | nextIf (kind : Token.Kind) (constraint : Option Constraint)
  | expect (kind : Token.Kind) (constraint : Option Constraint)
  | look (n : Nat)
  | test (kind : Token.Kind) (constraint : Option Constraint)
  | inject (tokens : Array Token)
  | rewind

/-- What an operation answers. -/
inductive Answer where
  | token (t : Token)
  /-- There is no such token, which is no error. -/
  | absent
  | refused (e : SyntaxError)
  | verdict (holds : Bool)
  | done

/-- The answers to operations one after the other, and what the last of them leaves behind. -/
def Operation.runAll {σ : Type} (perform : σ → Operation → Answer × σ) (s : σ) :
    List Operation → List Answer × σ
  | [] => ([], s)
  | op :: ops =>
    let (answer, s') := perform s op
    let (answers, last) := runAll perform s' ops
    (answer :: answers, last)

/-- The answer to an operation, and the stream that it leaves behind. -/
def perform (s : TokenStream) : Operation → Answer × TokenStream
  | .next =>
    match s.next with
    | .ok (t, s') => (.token t, s')
    | .error e => (.refused e, s)
  | .nextIf kind constraint =>
    match s.nextIf kind constraint with
    | some (t, s') => (.token t, s')
    | none => (.absent, s)
  | .expect kind constraint =>
    match s.expect kind constraint with
    | .ok (t, s') => (.token t, s')
    | .error e => (.refused e, s)
  | .look n =>
    match s.look n with
    | .ok t => (.token t, s)
    | .error e => (.refused e, s)
  | .test kind constraint => (.verdict (s.test kind constraint), s)
  | .inject tokens => (.done, s.inject tokens)
  | .rewind => (.done, s.rewind)

/-- The answers to operations on a stream. -/
def run (s : TokenStream) (ops : List Operation) : List Answer × TokenStream :=
  Operation.runAll perform s ops

end TokenStream

open TokenStream (Operation Answer)

/-! ## Rows cut in two -/

/-- Whether a row of tokens has the end of the template for its last. -/
def EndsTemplate (ts : List Token) : Prop := ts.getLast?.map Token.kind = some .eof

theorem EndsTemplate.ne_nil {ts : List Token} (h : EndsTemplate ts) : ts ≠ [] := by
  rintro rfl
  cases h

theorem EndsTemplate.append_left {ts : List Token} (h : EndsTemplate ts) (us : List Token) :
    EndsTemplate (us ++ ts) := by
  obtain ⟨t, ht, hkind⟩ := Option.map_eq_some_iff.1 h
  rw [EndsTemplate, List.getLast?_append, ht, Option.some_or, Option.map_some, hkind]

theorem endsTemplate_terminated (tokens : Array Token) :
    EndsTemplate (TokenStream.terminated tokens).toList := by
  unfold TokenStream.terminated
  split
  · rfl
  · rename_i last hlast
    split
    · rename_i hkind
      show tokens.toList.getLast?.map Token.kind = some .eof
      rw [Array.getLast?_toList, hlast, Option.map_some, hkind]
    · show (tokens.push (.eof last.stop)).toList.getLast?.map Token.kind = some .eof
      rw [Array.getLast?_toList, Array.back?_push]
      rfl

/-- A row of tokens cut in two. The second part is not empty and ends with the end of the
template. -/
structure Zipper where
  before : List Token
  after : List Token
  ends : EndsTemplate after

namespace Zipper

/-- The row of tokens that a stream is made from, with nothing in the first part. -/
def ofTokens (tokens : Array Token) : Zipper where
  before := []
  after := (TokenStream.terminated tokens).toList
  ends := endsTemplate_terminated tokens

/-- The first token of the second part. -/
def focus (z : Zipper) : Token := z.after.head z.ends.ne_nil

/-- The last token of the row. -/
def last (z : Zipper) : Token := z.after.getLast z.ends.ne_nil

/-- The error where no further token can be had. -/
def endError (z : Zipper) : SyntaxError := ⟨.unexpectedEnd, z.focus.location⟩

/-- Takes the first token of the second part to the end of the first. The last token of the row
stays where it is, and the answer is `otherwise`. -/
def move (otherwise : Answer) : Zipper → Answer × Zipper
  | ⟨before, t :: u :: after, ends⟩ => (.token t, ⟨before ++ [t], u :: after, ends⟩)
  | z => (otherwise, z)

/-- The answer to an operation, and the row that it leaves behind. -/
def perform (z : Zipper) : Operation → Answer × Zipper
  | .next => z.move (.refused z.endError)
  | .nextIf kind constraint =>
    if z.focus.test kind constraint then z.move .absent else (.absent, z)
  | .expect kind constraint =>
    if z.focus.test kind constraint then z.move (.refused z.endError)
    else
      (.refused ⟨.unexpectedToken z.focus.kind z.focus.text kind
        (constraint.map Constraint.description), z.focus.location⟩, z)
  | .look n => (z.after[n]?.elim (.refused z.endError) .token, z)
  | .test kind constraint => (.verdict (z.focus.test kind constraint), z)
  | .inject tokens =>
    (.done, ⟨z.before, tokens.toList ++ z.after, z.ends.append_left tokens.toList⟩)
  | .rewind => (.done, ⟨[], z.before ++ z.after, z.ends.append_left z.before⟩)

/-- The answers to operations on a row. -/
def run (z : Zipper) (ops : List Operation) : List Answer × Zipper :=
  Operation.runAll perform z ops

/-- Reading on gives every token of the second part but the last, in order, and then fails. -/
theorem answers_replicate_next (z : Zipper) (n : Nat) :
    (z.run (List.replicate n .next)).1 =
      (z.after.dropLast.take n).map .token ++
        List.replicate (n - z.after.dropLast.length)
          (.refused ⟨.unexpectedEnd, z.last.location⟩) := by
  induction n generalizing z with
  | zero => simp [run, Operation.runAll]
  | succ n ih =>
    rw [List.replicate_succ]
    -- On the last token the row stays as it is, so the claim for `n` is again about the same row.
    obtain ⟨before, _ | ⟨t, _ | ⟨u, after⟩⟩, ends⟩ := z
    · exact absurd rfl ends.ne_nil
    · show Answer.refused _ :: (run ⟨before, [t], ends⟩ _).1 = _
      rw [ih]
      simp [endError, focus, last, List.replicate_succ]
    · show Answer.token t :: (run ⟨before ++ [t], u :: after, _⟩ _).1 = _
      rw [ih]
      simp [last]

end Zipper

/-! ## Streams as rows cut in two -/

namespace TokenStream

/-- A stream shows the row of its tokens, cut where the cursor is. -/
structure Shows (s : TokenStream) (z : Zipper) : Prop where
  tokens_eq : s.tokens.toList = z.before ++ z.after
  cursor_eq : s.cursor = z.before.length

namespace Shows

variable {s : TokenStream} {z : Zipper}

theorem getElem?_eq (h : s.Shows z) (n : Nat) : s.tokens[s.cursor + n]? = z.after[n]? := by
  rw [← Array.getElem?_toList, h.tokens_eq, h.cursor_eq, List.getElem?_append_right (by omega),
    Nat.add_sub_cancel_left]

theorem current_eq (h : s.Shows z) : s.current = z.focus := by
  have hcurrent : s.tokens[s.cursor]? = some s.current := Array.getElem?_eq_getElem s.cursor_lt
  rw [show s.tokens[s.cursor]? = z.after[0]? from h.getElem?_eq 0, ← List.head?_eq_getElem?,
    List.head?_eq_some_head z.ends.ne_nil] at hcurrent
  exact (Option.some.inj hcurrent).symm

theorem endError_eq (h : s.Shows z) : s.endError = z.endError := by
  rw [endError, h.current_eq]
  rfl

theorem size_eq (h : s.Shows z) : s.tokens.size = z.before.length + z.after.length := by
  rw [← Array.length_toList, h.tokens_eq, List.length_append]

/-- There is a token behind the current one exactly if the second part has at least two. -/
theorem lt_size_iff (h : s.Shows z) : s.cursor + 1 < s.tokens.size ↔ 1 < z.after.length := by
  rw [h.size_eq, h.cursor_eq]
  omega

/-- Moving over the current token moves it from the second part to the first, and fails where it is
the last. -/
theorem next (h : s.Shows z) :
    (s.next = .error s.endError ∧ ∀ otherwise, z.move otherwise = (otherwise, z)) ∨
      ∃ s' z', s.next = .ok (s.current, s') ∧
        (∀ otherwise, z.move otherwise = (.token s.current, z')) ∧ s'.Shows z' := by
  have hlt := h.lt_size_iff
  have hcurrent := h.current_eq
  -- The second part is never empty; what counts is whether it has a token behind its first.
  obtain ⟨before, _ | ⟨t, _ | ⟨u, after⟩⟩, ends⟩ := z
  · exact absurd rfl ends.ne_nil
  · have hlast : ¬s.cursor + 1 < s.tokens.size := fun hmore => Nat.lt_irrefl 1 (hlt.1 hmore)
    exact Or.inl ⟨next_of_not_lt hlast, fun _ => rfl⟩
  · have hmore : s.cursor + 1 < s.tokens.size := by
      apply hlt.2
      show 1 < after.length + 1 + 1
      omega
    refine Or.inr ⟨_, ⟨before ++ [t], u :: after, ends⟩, next_of_lt hmore, fun _ => ?_, ?_, ?_⟩
    · rw [hcurrent]
      rfl
    · show s.tokens.toList = before ++ [t] ++ u :: after
      rw [h.tokens_eq, List.append_assoc]
      rfl
    · show s.cursor + 1 = (before ++ [t]).length
      rw [h.cursor_eq, List.length_append]
      rfl

theorem inject (h : s.Shows z) (tokens : Array Token) :
    (s.inject tokens).Shows (z.perform (.inject tokens)).2 := by
  constructor
  · have htake : (s.tokens.extract 0 s.cursor).toList = z.before := by
      rw [Array.toList_extract, h.tokens_eq, h.cursor_eq]
      simp
    have hdrop : (s.tokens.extract s.cursor s.tokens.size).toList = z.after := by
      rw [Array.toList_extract, List.extract_eq_take_drop, h.tokens_eq, h.cursor_eq, List.drop_left]
      apply List.take_of_length_le
      rw [h.size_eq]
      omega
    show (s.tokens.extract 0 s.cursor ++ tokens ++ _).toList =
      z.before ++ (tokens.toList ++ z.after)
    rw [Array.toList_append, Array.toList_append, htake, hdrop, List.append_assoc]
  · exact h.cursor_eq

theorem rewind (h : s.Shows z) : s.rewind.Shows (z.perform .rewind).2 := ⟨h.tokens_eq, rfl⟩

/-- The two answers are the same, and the stream left behind shows the row left behind. -/
def Agree (r : Answer × TokenStream) (q : Answer × Zipper) : Prop := r.1 = q.1 ∧ r.2.Shows q.2

theorem perform_next (h : s.Shows z) : Agree (s.perform .next) (z.perform .next) := by
  rw [TokenStream.perform, Zipper.perform]
  obtain ⟨hnext, hmove⟩ | ⟨s', z', hnext, hmove, hshows⟩ := h.next
  · rw [hnext, hmove, h.endError_eq]
    exact ⟨rfl, h⟩
  · rw [hnext, hmove]
    exact ⟨rfl, hshows⟩

theorem perform_nextIf (h : s.Shows z) (kind : Token.Kind) (constraint : Option Constraint) :
    Agree (s.perform (.nextIf kind constraint)) (z.perform (.nextIf kind constraint)) := by
  rw [TokenStream.perform, Zipper.perform, nextIf, TokenStream.test, h.current_eq]
  cases z.focus.test kind constraint with
  | false => exact ⟨rfl, h⟩
  | true =>
    rw [if_pos rfl, if_pos rfl]
    obtain ⟨hnext, hmove⟩ | ⟨s', z', hnext, hmove, hshows⟩ := h.next
    · rw [hnext, hmove]
      exact ⟨rfl, h⟩
    · rw [hnext, hmove]
      exact ⟨rfl, hshows⟩

theorem perform_expect (h : s.Shows z) (kind : Token.Kind) (constraint : Option Constraint) :
    Agree (s.perform (.expect kind constraint)) (z.perform (.expect kind constraint)) := by
  rw [TokenStream.perform, Zipper.perform, expect_eq, TokenStream.test, h.current_eq]
  cases z.focus.test kind constraint with
  | false => exact ⟨rfl, h⟩
  | true => exact h.perform_next

theorem perform_look (h : s.Shows z) (n : Nat) :
    Agree (s.perform (.look n)) (z.perform (.look n)) := by
  rw [TokenStream.perform, Zipper.perform, look, h.getElem?_eq, h.endError_eq]
  cases z.after[n]? with
  | none => exact ⟨rfl, h⟩
  | some t => exact ⟨rfl, h⟩

/-- An operation on a stream answers and does what it answers and does on the row that the stream
shows. -/
theorem perform (h : s.Shows z) (op : Operation) : Agree (s.perform op) (z.perform op) := by
  cases op with
  | next => exact h.perform_next
  | nextIf kind constraint => exact h.perform_nextIf kind constraint
  | expect kind constraint => exact h.perform_expect kind constraint
  | look n => exact h.perform_look n
  | test kind constraint =>
    refine ⟨?_, h⟩
    show Answer.verdict (s.current.test kind constraint) = .verdict (z.focus.test kind constraint)
    rw [h.current_eq]
  | inject tokens => exact ⟨rfl, h.inject tokens⟩
  | rewind => exact ⟨rfl, h.rewind⟩

/-- So do operations one after the other. -/
theorem run (h : s.Shows z) (ops : List Operation) :
    (s.run ops).1 = (z.run ops).1 ∧ (s.run ops).2.Shows (z.run ops).2 := by
  induction ops generalizing s z with
  | nil => exact ⟨rfl, h⟩
  | cons op ops ih =>
    obtain ⟨hanswer, hshows⟩ := h.perform op
    obtain ⟨hanswers, hlast⟩ := ih hshows
    constructor
    · show (s.perform op).1 :: ((s.perform op).2.run ops).1 =
        (z.perform op).1 :: ((z.perform op).2.run ops).1
      rw [hanswer, hanswers]
    · exact hlast

end Shows

/-! ## Any operations -/

theorem source_of_next {s s' : TokenStream} {t : Token} (h : s.next = .ok (t, s')) :
    s'.source = s.source := by
  unfold next at h
  split at h
  · cases h
    rfl
  · cases h

/-- No operation loses the template. -/
theorem source_perform (s : TokenStream) (op : Operation) : (s.perform op).2.source = s.source := by
  cases op with
  | next =>
    rw [perform]
    split
    · rename_i hnext
      exact source_of_next hnext
    · rfl
  | nextIf kind constraint =>
    rw [perform]
    split
    · rename_i h
      unfold nextIf at h
      split at h
      · cases hnext : s.next with
        | error e =>
          rw [hnext] at h
          cases h
        | ok moved =>
          rw [hnext] at h
          cases h
          exact source_of_next hnext
      · cases h
    · rfl
  | expect kind constraint =>
    rw [perform]
    split
    · rename_i h
      rw [expect_eq] at h
      split at h
      · exact source_of_next h
      · cases h
    · rfl
  | look n =>
    rw [perform]
    split <;> rfl
  | test kind constraint => rfl
  | inject tokens => rfl
  | rewind => rfl

theorem source_run (s : TokenStream) (ops : List Operation) : (s.run ops).2.source = s.source := by
  induction ops generalizing s with
  | nil => rfl
  | cons op ops ih => exact (ih _).trans (s.source_perform op)

/-- Whatever is asked of a stream one thing after the other, the answers are those of a row of
tokens cut in two, and what is left of the stream is what is left of the row. From there reading on
gives the tokens of the second part but the last, in order, and then fails forever. -/
theorem run_eq_zipper_run (tokens : Array Token) (source : Option Text) (ops : List Operation) :
    let stream := ((ofTokens tokens source).run ops).2
    let z := ((Zipper.ofTokens tokens).run ops).2
    ((ofTokens tokens source).run ops).1 = ((Zipper.ofTokens tokens).run ops).1 ∧
      stream.tokens.toList = z.before ++ z.after ∧ stream.cursor = z.before.length ∧
      stream.current = z.focus ∧ stream.source = source ∧
      ∀ n, (stream.run (List.replicate n .next)).1 =
        (z.after.dropLast.take n).map .token ++
          List.replicate (n - z.after.dropLast.length)
            (.refused ⟨.unexpectedEnd, z.last.location⟩) := by
  intro stream z
  have hstart : (ofTokens tokens source).Shows (Zipper.ofTokens tokens) := ⟨rfl, rfl⟩
  obtain ⟨hanswers, hshows⟩ := hstart.run ops
  refine ⟨hanswers, hshows.tokens_eq, hshows.cursor_eq, hshows.current_eq, source_run _ ops, ?_⟩
  intro n
  rw [(hshows.run _).1]
  exact z.answers_replicate_next n

end TokenStream
end TemplateTokens
