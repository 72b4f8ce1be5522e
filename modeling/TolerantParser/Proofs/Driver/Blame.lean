import TolerantParser.Mini.Lexer
import TolerantParser.Proofs.Driver.Stream
import TolerantParser.Proofs.Mini.Settling

/-! # Whom an error blames

Before a token is refused for good, a marker run may have been read again and a remedy tried, and
each of these has failed on some token and with some doc comments of its own.  None of that is ever
reported: `Blames` says what is, the refusal of the token itself in the plain reading.  Over a
stream the token to blame is the last one that was pulled. -/

set_option autoImplicit false

namespace TolerantParser.Driver

variable {Env Value : Type} (d : Driver Env Value)

/-- The failure is that of reading `t` at `s` as it is. -/
structure Blames (s : State Env) (t : Token) (f : Failure Env) : Prop where
  token : f.token = t
  docstrings : f.docstrings = s.docstrings
  breakdown : d.automaton.offerSettled s.env t = .failed f.breakdown

theorem blames_of_offer
    (s : State Env)
    (t : Token)
    (f : Failure Env)
    (offered : d.offer s t = .error f) :
    d.Blames s t f := by
  have stepped := d.step_of_offer_error s t f offered
  have refused := d.read_of_step_error s t f stepped
  obtain ⟨breakdown, docstrings, token⟩ :=
    (d.read_eq_error_iff s.env s.docstrings t f).mp refused
  exact ⟨token, docstrings, breakdown⟩

theorem exists_blamed_of_offerMany
    (s : State Env)
    (ts : List Token)
    (f : Failure Env)
    (failed : (d.offerMany s ts).outcome = .error f) :
    ∃ before t rest last, ts = before ++ t :: rest
      ∧ d.offerMany s before = ⟨.intermediate last, before.length⟩
      ∧ d.Blames last t f
      ∧ ∀ us, d.offerMany s (before ++ t :: us) = ⟨.error f, before.length + 1⟩ := by
  obtain ⟨before, t, rest, last, rfl, fed, offered⟩ :=
    d.exists_end_of_offerMany s ts (by rw [failed]; rfl)
  rw [failed] at offered
  refine ⟨before, t, rest, last, rfl, d.offerMany_of_intermediate s last before fed,
    d.blames_of_offer last t f offered, fun us => ?_⟩
  rw [d.offerMany_of_end s last before us t fed (by rw [offered]; rfl), offered]

theorem exists_index_of_offerMany_error
    (s : State Env)
    (ts : List Token)
    (f : Failure Env)
    (failed : (d.offerMany s ts).outcome = .error f) :
    ∃ i, (d.offerMany s ts).pulled = i + 1 ∧ ts[i]? = some f.token := by
  obtain ⟨before, t, rest, last, rfl, _, blames, same⟩ := d.exists_blamed_of_offerMany s ts f failed
  exact ⟨before.length, by rw [same rest], by simp [blames.token]⟩

theorem exists_offerMany_of_syntaxRejected
    (s : State Env)
    (reached : Offset)
    (ts : List Token)
    (kind : Kind)
    (span : Span)
    (docs : List Docstring)
    (rejected : d.parseFrom s reached ts = .error (.syntaxRejected kind span docs)) :
    ∃ f, (d.offerMany s ts).outcome = .error f
      ∧ f.toParseError = .syntaxRejected kind span docs := by
  rw [d.parseFrom_eq] at rejected
  cases fed : (d.offerMany s ts).outcome with
  | intermediate next => simp [fed, Outcome.result?] at rejected
  | success p => simp [fed, Outcome.result?] at rejected
  | error f =>
    simp only [fed, Outcome.result?, Option.getD_some, Except.error.injEq] at rejected
    exact ⟨f, rfl, rejected⟩

theorem parseFrom_of_error
    (s : State Env)
    (reached : Offset)
    (ts : List Token)
    (f : Failure Env)
    (failed : (d.offerMany s ts).outcome = .error f) :
    d.parseFrom s reached ts = .error f.toParseError := by
  rw [d.parseFrom_eq, failed]
  rfl

/-- An error is always that of the real token in its plain reading: it names the token that was
offered, the doc comments set aside before it, and the breakdown of the automaton where the state
stood, whatever was tried in between.  A stream that fails, and a parse that does, blames the last
token that it pulled, and reports the doc comments of the last unfinished state; its diagnostic is
that of the parse error. -/
theorem blames_of_error :
    (∀ (s : State Env) (t : Token) (f : Failure Env), d.offer s t = .error f → d.Blames s t f)
      ∧ (∀ (s : State Env) (ts : List Token) (f : Failure Env),
          (d.offerMany s ts).outcome = .error f →
          ∃ before t rest last, ts = before ++ t :: rest
            ∧ (d.offerMany s ts).pulled = before.length + 1
            ∧ d.offerMany s before = ⟨.intermediate last, before.length⟩
            ∧ d.Blames last t f)
      ∧ (∀ (goal : Goal) (o : Offset) (ts : List Token) (kind : Kind) (span : Span)
          (docs : List Docstring),
          d.parse goal o ts = .ok (.error (.syntaxRejected kind span docs)) →
          ∃ s₀ before t rest last, d.initial goal o = .ok s₀
            ∧ ts = before ++ t :: rest
            ∧ d.offerMany s₀ before = ⟨.intermediate last, before.length⟩
            ∧ kind = t.kind ∧ span = t.span ∧ docs = last.docstrings.toList
            ∧ ∀ us, d.parse goal o (before ++ t :: us) = d.parse goal o ts)
      ∧ ∀ f : Failure Env, f.diagnostic = f.toParseError.diagnostic := by
  refine ⟨d.blames_of_offer, ?_, ?_, fun _ => rfl⟩
  · intro s ts f failed
    obtain ⟨before, t, rest, last, rfl, fed, blames, same⟩ :=
      d.exists_blamed_of_offerMany s ts f failed
    exact ⟨before, t, rest, last, rfl, by rw [same rest], fed, blames⟩
  · intro goal o ts kind span docs parsed
    unfold parse at parsed ⊢
    cases start : d.initial goal o with
    | error unready => simp [start, Except.map] at parsed
    | ok s₀ =>
      simp only [start, Except.map, Except.ok.injEq] at parsed ⊢
      obtain ⟨f, failed, reported⟩ :=
        d.exists_offerMany_of_syntaxRejected s₀ o ts kind span docs parsed
      obtain ⟨before, t, rest, last, rfl, fed, blames, same⟩ :=
        d.exists_blamed_of_offerMany s₀ ts f failed
      simp only [Failure.toParseError, blames.token, blames.docstrings,
        ParseError.syntaxRejected.injEq] at reported
      refine ⟨s₀, before, t, rest, last, rfl, rfl, fed, reported.1.symm, reported.2.1.symm,
        reported.2.2.symm, fun us => ?_⟩
      rw [d.parseFrom_of_error s₀ o _ f (by rw [same us]), d.parseFrom_of_error s₀ o _ f failed]

/-- A keyword that neither reading of a marker run can take, nor a separator can help. -/
theorem blames_of_error_at_markers :
    let doc : Docstring := ⟨"d", ⟨.clamp 5, .clamp 11⟩⟩
    let lets : Token := ⟨.reserved .kwLet, ⟨.clamp 12, .clamp 15⟩⟩
    let s : State Mini.Env :=
      ⟨⟨.expression, [.token ⟨.text .infixOp1 "^^", ⟨.clamp 2, .clamp 4⟩⟩, .expr (.var "x")],
          none⟩, .ofList [doc],
        some ⟨⟨.expression, [.token ⟨.text .lowerIdent "x", ⟨.clamp 0, .clamp 1⟩⟩], none⟩, 2,
          .clamp 2⟩⟩
    let f : Failure Mini.Env :=
      ⟨.handlingError ⟨.expression, s.env.stack, some lets⟩, .ofList [doc], lets⟩
    (Mini.driver .all).Blames s lets f
      ∧ (∃ before rest last, Mini.lex "x ^^ /**d*/ let" = before ++ lets :: rest
        ∧ (Mini.driver .all).Blames last lets f)
      ∧ ∃ before t rest last, Mini.lex "x ^^ /**d*/ let" = before ++ t :: rest
        ∧ (Mini.driver .all).offerMany (Mini.initialState .expression) before
          = ⟨.intermediate last, before.length⟩
        ∧ last.docstrings.toList = [doc] := by
  intro doc lets s f
  obtain ⟨ofOffer, ofOfferMany, ofParse, _⟩ := blames_of_error (Mini.driver .all)
  have offered : (Mini.driver .all).offer s lets = .error f := by
    dsimp only [s, lets, doc, f]
    rfl
  have failed : ((Mini.driver .all).offerMany (Mini.initialState .expression)
      (Mini.lex "x ^^ /**d*/ let")).outcome = .error f := rfl
  refine ⟨ofOffer s lets f offered, ?_, ?_⟩
  · obtain ⟨before, t, rest, last, split, _, _, blamed⟩ := ofOfferMany _ _ f failed
    cases blamed.token
    exact ⟨before, rest, last, split, blamed⟩
  · obtain ⟨s₀, before, t, rest, last, start, split, fed, _, _, docs, _⟩ :=
      ofParse .expression .zero (Mini.lex "x ^^ /**d*/ let") (.reserved .kwLet) lets.span [doc] rfl
    cases start
    exact ⟨before, t, rest, last, split, fed, docs.symm⟩

end TolerantParser.Driver
