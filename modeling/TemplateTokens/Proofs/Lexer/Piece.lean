import TemplateTokens.Lexer.State

/-!
# Pieces of a template

A run cuts pieces off the rest of its template and makes a token of each. A row of pieces is kept
here apart from the state that reads it: what a step reads is such a row, and the tokens, the
position and the rest behind the step follow from it.

Results:

* `State.Reads`: a state has read a row of pieces that stands at its position.
* `State.Reads.trans`: what two states read one after the other is read in one go.
* `State.Reads.emit`: a token whose text begins the rest is one more piece.
* `State.Reads.offset_eq`: the position moves by the size of the pieces.
-/

namespace TemplateTokens

/-- `piece` is what a text has from byte `start` on, and neither of its ends cuts a character. -/
def SliceAt (text : Text) (start : Nat) (piece : Text) : Prop :=
  ∃ before after, text = before ++ (piece ++ after) ∧ byteSize before = start

/-- A piece of a template and the kind of token it becomes. -/
structure Piece where
  kind : Token.Kind
  value : Text
deriving DecidableEq, Repr

/-- The kind and the text of a token. -/
def Token.piece (t : Token) : Piece := ⟨t.kind, t.text⟩

namespace Piece

/-- A piece unless its text is empty. -/
def unlessEmpty (kind : Token.Kind) (value : Text) : List Piece :=
  if value = [] then [] else [⟨kind, value⟩]

/-- The piece of a trim marker, if there is one. -/
def ofTrim (d : Dialect) : Option Trim → List Piece
  | none => []
  | some .whole => [⟨.trimming, [d.trim]⟩]
  | some .line => [⟨.lineTrimming, [d.lineTrim]⟩]

/-- The text of a row of pieces. -/
def texts (ps : List Piece) : Text := ps.flatMap value

/-- The tokens of a row of pieces that begins at a location. -/
def tokensFrom : Location → List Piece → List Token
  | _, [] => []
  | l, p :: ps => ⟨p.kind, some p.value, l⟩ :: tokensFrom (l.advance p.value) ps

/-- The position behind a row of pieces. -/
def stop (p : Position) (ps : List Piece) : Position := ps.foldl (fun p q => p.advance q.value) p

@[simp] theorem texts_nil : texts [] = [] := rfl

@[simp] theorem texts_cons (p : Piece) (ps : List Piece) :
    texts (p :: ps) = p.value ++ texts ps := by
  simp [texts]

@[simp] theorem texts_append (ps qs : List Piece) : texts (ps ++ qs) = texts ps ++ texts qs := by
  simp [texts]

@[simp] theorem texts_unlessEmpty (kind : Token.Kind) (value : Text) :
    texts (unlessEmpty kind value) = value := by
  unfold unlessEmpty
  split <;> simp_all

@[simp] theorem texts_ofTrim (d : Dialect) (m : Option Trim) :
    texts (ofTrim d m) = d.modifierText m := by
  rcases m with _ | ⟨_ | _⟩ <;> simp [ofTrim, Dialect.modifierText, Dialect.marker]

@[simp] theorem stop_append (p : Position) (ps qs : List Piece) :
    stop p (ps ++ qs) = stop (stop p ps) qs := List.foldl_append

theorem tokensFrom_append (p : Position) (ps qs : List Piece) :
    tokensFrom p.toLocation (ps ++ qs) =
      tokensFrom p.toLocation ps ++ tokensFrom (stop p ps).toLocation qs := by
  induction ps generalizing p with
  | nil => rfl
  | cons q ps ih => simpa [tokensFrom, stop] using ih (p.advance q.value)

theorem offset_stop (p : Position) (ps : List Piece) :
    (stop p ps).offset = p.offset + byteSize (texts ps) := by
  induction ps generalizing p with
  | nil => rfl
  | cons q ps ih =>
    rw [show stop p (q :: ps) = stop (p.advance q.value) ps from rfl, ih]
    simp [Nat.add_assoc]

theorem value_of_mem_tokensFrom {l : Location} {ps : List Piece} {t : Token}
    (h : t ∈ tokensFrom l ps) : t.value = some t.text := by
  induction ps generalizing l with
  | nil => cases h
  | cons p ps ih =>
    rcases List.mem_cons.1 h with rfl | h
    · rfl
    · exact ih h

theorem map_piece_tokensFrom (l : Location) (ps : List Piece) :
    (tokensFrom l ps).map Token.piece = ps := by
  induction ps generalizing l with
  | nil => rfl
  | cons p ps ih =>
    have hp : Token.piece ⟨p.kind, some p.value, l⟩ = p := rfl
    rw [tokensFrom, List.map_cons, ih, hp]

end Piece

open Piece

namespace State

@[simp] theorem rest_openScope (s : State) (opener closer : Text) :
    (s.openScope opener closer).rest = s.rest := rfl

@[simp] theorem rest_closeScope (s : State) : s.closeScope.rest = s.rest := rfl

/-! ## Reading -/

/-- From `s` to `s'` the pieces `ps` have been read, each of which stood at the position. -/
structure Reads (s : State) (ps : List Piece) (s' : State) : Prop where
  rest_eq : s.rest = texts ps ++ s'.rest
  position_eq : s'.position = stop s.position ps
  tokens_eq : s'.tokens.toList = s.tokens.toList ++ tokensFrom s.position.toLocation ps

namespace Reads

variable {s s' s'' : State} {ps qs : List Piece} {d : Dialect}

theorem refl (s : State) : s.Reads [] s := ⟨rfl, rfl, (List.append_nil _).symm⟩

theorem trans (h : s.Reads ps s') (h' : s'.Reads qs s'') : s.Reads (ps ++ qs) s'' where
  rest_eq := by rw [h.rest_eq, h'.rest_eq, texts_append, List.append_assoc]
  position_eq := by rw [h'.position_eq, h.position_eq, stop_append]
  tokens_eq := by
    rw [h'.tokens_eq, h.tokens_eq, tokensFrom_append, h.position_eq, List.append_assoc]

/-- Reading is about the position, the rest and the tokens alone. -/
theorem congr_left (h : s'.Reads ps s'') (hp : s'.position = s.position) (hr : s'.rest = s.rest)
    (ht : s'.tokens = s.tokens) : s.Reads ps s'' :=
  ⟨hr ▸ h.rest_eq, hp ▸ h.position_eq, ht ▸ hp ▸ h.tokens_eq⟩

theorem congr_right (h : s.Reads ps s') (hp : s''.position = s'.position) (hr : s''.rest = s'.rest)
    (ht : s''.tokens = s'.tokens) : s.Reads ps s'' :=
  ⟨hr ▸ h.rest_eq, hp ▸ h.position_eq, ht ▸ h.tokens_eq⟩

theorem of_openScope {opener closer : Text} (h : (s.openScope opener closer).Reads ps s') :
    s.Reads ps s' := h.congr_left rfl rfl rfl

theorem of_closeScope (h : s.closeScope.Reads ps s') : s.Reads ps s' := h.congr_left rfl rfl rfl

theorem closeScope (h : s.Reads ps s') : s.Reads ps s'.closeScope := h.congr_right rfl rfl rfl

theorem enter (h : s.Reads ps s') (mode : Mode) : s.Reads ps (s'.enter mode) :=
  h.congr_right rfl rfl rfl

theorem leave (h : s.Reads ps s') : s.Reads ps s'.leave := h.congr_right rfl rfl rfl

theorem offset_eq (h : s.Reads ps s') :
    s'.position.offset = s.position.offset + byteSize (texts ps) := by
  rw [h.position_eq, offset_stop]

/-! ## Reading one token -/

theorem emit (kind : Token.Kind) {value rest : Text} (h : s.rest = value ++ rest) :
    s.Reads [⟨kind, value⟩] (s.emit kind value) where
  rest_eq := by rw [rest_emit h]; simpa using h
  position_eq := rfl
  tokens_eq := Array.toList_push

theorem emitSome (kind : Token.Kind) {value rest : Text} (h : s.rest = value ++ rest) :
    s.Reads (unlessEmpty kind value) (s.emitSome kind value) := by
  cases value with
  | nil => exact refl s
  | cons c t => exact emit kind h

theorem emitTrim {m : Option Trim} {rest : Text} (h : s.rest = d.modifierText m ++ rest) :
    s.Reads (ofTrim d m) (s.emitTrim d m) := by
  rcases m with _ | ⟨_ | _⟩
  · exact refl s
  · exact emit _ h
  · exact emit _ h

theorem emitBlanks (s : State) : s.Reads (unlessEmpty .whitespace (blanks s.rest)) s.emitBlanks :=
  emitSome _ (blanks_append_dropWhile s.rest).symm

/-! ## Reading one more token -/

theorem rest_of_eq {rest : Text} (h : s.Reads ps s') (e : s.rest = texts ps ++ rest) :
    s'.rest = rest := List.append_cancel_left (h.rest_eq.symm.trans e)

theorem andEmit (h : s.Reads ps s') (kind : Token.Kind) (value rest : Text)
    (e : s.rest = texts ps ++ (value ++ rest)) :
    s.Reads (ps ++ [⟨kind, value⟩]) (s'.emit kind value) :=
  h.trans (emit kind (h.rest_of_eq e))

theorem andEmitSome (h : s.Reads ps s') (kind : Token.Kind) (value rest : Text)
    (e : s.rest = texts ps ++ (value ++ rest)) :
    s.Reads (ps ++ unlessEmpty kind value) (s'.emitSome kind value) :=
  h.trans (emitSome kind (h.rest_of_eq e))

theorem andEmitTrim (h : s.Reads ps s') (m : Option Trim) (rest : Text)
    (e : s.rest = texts ps ++ (d.modifierText m ++ rest)) :
    s.Reads (ps ++ ofTrim d m) (s'.emitTrim d m) :=
  h.trans (emitTrim (h.rest_of_eq e))

end Reads

end State

end TemplateTokens
