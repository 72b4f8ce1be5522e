import TolerantParser.Proofs.Driver.Blame
import TolerantParser.Proofs.Mini.Agreement
import TolerantParser.Proofs.Mini.Words

/-! # The end of the file ends every parse

The automaton takes up the end of the file on no stack at all (`nextAction_eof_ne_shift`), and the
end of the file has no remedy, so an offer of it succeeds or fails whatever the state.  What
succeeds is known for viable stacks only: nothing but the end of the file, and a separator behind a
toplevel phrase.  No remedy ends in either, so the same holds of the driver
(`end_of_offer_success`).  A source text always has an end, hence its parses come to one. -/

set_option autoImplicit false

namespace TolerantParser.Mini

/-! ## The end of the file is never taken up -/

section Decisions
variable (goal : Goal) (ms : List Mark)

theorem onToken_eof_ne_shift (top : Tag) : onToken goal .eof top ms ≠ .shift := by
  unfold onToken onLowerIdent onUpperIdent onLParen onRParen onSemi
  repeat' split
  all_goals simp_all [Action.shiftIf, Action.reduceIf, startsOperand, startsItem, startsType, startsArg,
    isUnaryOp, endsItem, endsArg]

theorem onExpr_eof_ne_shift : onExpr goal .eof ms ≠ .shift := by
  intro next
  rcases shift_of_onExpr goal .eof ms next with isPostfix | ⟨p, isBinary⟩ | ⟨closes, _⟩
  · cases isPostfix
  · cases isBinary
  · cases closes

theorem nextAction_eof_ne_shift : nextAction goal .eof ms ≠ .shift := by
  cases ms with
  | nil =>
    cases goal <;>
      simp [nextAction, onEmpty, Action.shiftIf, startsOperand, startsType, startsItem, isUnaryOp]
  | cons top below =>
    cases top with
    | token top => exact onToken_eof_ne_shift goal below top
    | expr => exact onExpr_eof_ne_shift goal below
    | args isEmpty => cases isEmpty <;> simp [nextAction, onArgs, Action.shiftIf, startsArg,
        startsOperand, isUnaryOp]
    | type =>
      intro next
      exact absurd (shift_of_onType goal .eof below next) (by decide)
    | item =>
      simp only [nextAction, onItem]
      split <;> simp [endsItem]
    | items isOpen => simp [nextAction, onItems]

end Decisions

section Offers
variable (h : Heuristics) (goal : Goal)

theorem settled_eof_ne_needsInput
    (s : Stack)
    (t : Token)
    (env : Env)
    (ends : t.tag = .eof) :
    settled goal s t ≠ .needsInput env := by
  intro arrived
  obtain ⟨s', _, next, _⟩ := exists_shift_of_needsInput goal t (fun _ => True)
    (fun _ _ _ _ _ _ => trivial) s trivial env arrived
  rw [ends] at next
  exact nextAction_eof_ne_shift goal _ next

theorem offer_eof_isIntermediate
    (s : State Env)
    (t : Token)
    (ends : t.tag = .eof) :
    ((driver h).offer s t).isIntermediate = false := by
  have noRemedy : (driver h).heuristics.remedy? t = none :=
    remedy?_eq_none h t (by rw [ends]; nofun) (by rw [ends]; decide) (by rw [ends]; nofun)
  rw [Driver.offer_of_remedy?_eq_none _ s t noRemedy]
  cases stepped : (driver h).step s t with
  | intermediate next =>
    obtain ⟨env, _, same⟩ := (driver h).exists_reading_of_step s t (by rw [stepped]; rfl)
    rw [stepped] at same
    have arrived := (((driver h).read_eq_intermediate_iff env _ t next).mp same.symm).1
    exact absurd arrived (settled_eof_ne_needsInput env.goal env.stack t next.env ends)
  | success p => rfl
  | error f => rfl

theorem offerMany_eof_isIntermediate
    (s : State Env)
    (ts : List Token)
    (t : Token)
    (ends : t.tag = .eof) :
    ((driver h).offerMany s (ts ++ [t])).outcome.isIntermediate = false := by
  cases fed : ((driver h).offerMany s (ts ++ [t])).outcome with
  | intermediate next =>
    obtain ⟨middle, before⟩ := (driver h).exists_intermediate_of_beginning s next ts (ts ++ [t])
      (List.prefix_append ts [t]) fed
    have ended := offer_eof_isIntermediate h middle t ends
    rw [(driver h).offerMany_of_end s middle ts [] t before ended] at fed
    change (driver h).offer middle t = _ at fed
    rw [fed] at ended
    exact ended
  | success p => rfl
  | error f => rfl

/-! ## Nothing else ends in success -/

/-- The tokens that a run can end with: the end of the file, and for a toplevel phrase the separator
behind it. -/
def Ends (t : Tag) : Prop := t = .eof ∨ goal = .toplevelPhrase ∧ t = .reserved .semi

def OnCourse (env : Env) : Prop := env.goal = goal ∧ Viable goal env.stack

theorem OnCourse.ends_of_accepted
    (env : Env)
    (t : Token)
    (v : Tree)
    (onCourse : OnCourse goal env)
    (accepted : automaton.offerSettled env t = .accepted v) :
    Ends goal t.tag := by
  obtain ⟨_, s, la⟩ := env
  obtain ⟨rfl, viable⟩ := onCourse
  obtain ⟨s', viable', next, _⟩ := exists_accept_of_accepted _ t (Viable _)
    (fun s r s' viable next applied =>
      (viable.rewrites_of_apply _ s t r s' next applied).2) s viable v accepted
  exact (viable'.accept _ s' t next).2

theorem OnCourse.of_reading
    (s : State Env)
    (env : Env)
    (history : List Token)
    (reachable : (driver h).Reachable (initialState goal) history s)
    (reading : (driver h).Reading s env) :
    OnCourse goal env :=
  (driver h).holds_of_reading (OnCourse goal) (viable_of_offerSettled goal) s env
    (viable_of_reachable h goal history s reachable) reading

theorem Edit.ends_of_mem
    (t u : Token)
    (us : List Token)
    (edit : Edit h t us [])
    (isLast : us.getLast? = some u)
    (ends : Ends goal u.tag) :
    u = t := by
  cases edit with
  | keep | separate => simpa [eq_comm] using isLast
  | split parts enabled fused =>
    obtain ⟨_, _, tags⟩ := tags_of_labelParts t us fused
    rcases tags u (List.mem_of_getLast? isLast) with tagged | tagged | ⟨op, tagged⟩ <;>
      rw [tagged] at ends
    · exact absurd ends (by simp [Ends])
    · exact absurd ends (by simp [Ends])
    · cases op <;> exact absurd ends (by simp [Ends, LabelOperator.reserved])
  | replay n enabled marked =>
    rw [tag_of_mem_markerTokens n _ u (List.mem_of_getLast? isLast)] at ends
    exact absurd ends (by simp [Ends])

theorem end_of_offer_success
    (s : State Env)
    (t : Token)
    (p : Parsed Tree)
    (history : List Token)
    (reachable : (driver h).Reachable (initialState goal) history s)
    (offered : (driver h).offer s t = .success p) :
    Ends goal t.tag := by
  have taken := (driver h).taken_of_offer s t (by rw [offered]; rfl)
  generalize (driver h).offer s t = o at taken offered
  cases taken with
  | kept env reading =>
    have accepted := (((driver h).read_eq_success_iff env _ t p).mp offered).1
    exact (OnCourse.of_reading h goal s env history reachable reading).ends_of_accepted goal env t
      p.value accepted
  | setAside doc edit => cases offered
  | replaced parts env x o edit reading run concluded =>
    subst offered
    rw [(Driver.conclude_eq_success _ _ _ concluded).1] at run
    obtain ⟨before, u, last, rfl, read, accepted⟩ := automaton.exists_last_of_run env _ _ run
    have onCourse := automaton.invariant_of_run (OnCourse goal) (viable_of_offerSettled goal) env
      last before (.of_reading h goal s env history reachable reading) read
    have ends := onCourse.ends_of_accepted goal last u p.value accepted
    rwa [← Edit.ends_of_mem h goal t u _ edit (by simp) ends]

/-- An offer of the end of the file ends the parse, and in every state that tokens lead to from the
start, nothing else ends it in success but a separator behind a toplevel phrase.  So a source text
either parses, or one of its own tokens is refused, at its place in the text. -/
theorem end_of_file_ends_parse
    (o : Offset) :
    ∃ s₀, (driver h).initial goal o = .ok s₀
      ∧ (∀ history s t, (driver h).Reachable s₀ history s →
          (t.tag = .eof → ((driver h).offer s t).isIntermediate = false)
            ∧ (((driver h).offer s t).isSuccess = true →
                t.tag = .eof ∨ goal = .toplevelPhrase ∧ t.tag = .reserved .semi))
      ∧ ∀ source,
          (∃ p, (driver h).parse goal o (lex source) = .ok (.ok p))
            ∨ ∃ t docs, (driver h).parse goal o (lex source)
                = .ok (.error (.syntaxRejected t.kind t.span docs))
              ∧ t ∈ lex source
              ∧ t.span.start.toNat ≤ t.span.stop.toNat
              ∧ t.span.stop.toNat ≤ source.utf8ByteSize := by
  refine ⟨initialState goal, initial_driver h goal o, fun history s t reachable => ⟨?_, ?_⟩, ?_⟩
  · exact offer_eof_isIntermediate h s t
  · intro succeeds
    cases offered : (driver h).offer s t with
    | intermediate next => simp [offered, Outcome.isSuccess] at succeeds
    | success p => exact end_of_offer_success h goal s t p history reachable offered
    | error f => simp [offered, Outcome.isSuccess] at succeeds
  · intro source
    have ended := offerMany_eof_isIntermediate h (initialState goal) (lexWords source)
      ⟨.eof, .point (.clamp source.utf8ByteSize)⟩ rfl
    change ((driver h).offerMany (initialState goal) (lex source)).outcome.isIntermediate = false
      at ended
    rw [Driver.parse, initial_driver, Except.map]
    cases fed : ((driver h).offerMany (initialState goal) (lex source)).outcome with
    | intermediate next => simp [fed, Outcome.isIntermediate] at ended
    | success p =>
      exact .inl ⟨p, congrArg _ (((driver h).parseFrom_eq_ok_iff _ o _ p).mpr fed)⟩
    | error f =>
      obtain ⟨before, t, rest, last, split, _, blames, _⟩ :=
        (driver h).exists_blamed_of_offerMany (initialState goal) (lex source) f fed
      have member : t ∈ lex source := by simp [split]
      refine .inr ⟨t, f.docstrings.toList, ?_, member, span_of_mem_lex source t member⟩
      rw [(driver h).parseFrom_of_error _ o _ f fed, Failure.toParseError, blames.token]

end Offers

/-- Behind a marker run, whose second reading is still open, and in a text with a parenthesis that
closes nothing. -/
theorem end_of_file_ends_parse_at_markers :
    let s : State Env :=
      ⟨⟨.toplevelPhrase,
          [.token ⟨.text .infixOp1 "^^", ⟨.clamp 2, .clamp 4⟩⟩, .expr (.var "x")], none⟩, .empty,
        some ⟨⟨.toplevelPhrase, [.token ⟨.text .lowerIdent "x", ⟨.clamp 0, .clamp 1⟩⟩], none⟩, 2,
          .clamp 2⟩⟩
    let semi : Token := ⟨.reserved .semi, ⟨.clamp 5, .clamp 6⟩⟩
    ((driver .all).offer s ⟨.eof, .point (.clamp 4)⟩).isIntermediate = false
      ∧ ((driver .all).offer s semi).isSuccess = true
      ∧ (semi.tag = .eof ∨ (.toplevelPhrase : Goal) = .toplevelPhrase ∧ semi.tag = .reserved .semi)
      ∧ ∃ t docs, (driver .all).parse .toplevelPhrase .zero (lex "x ^^ /**d*/ )")
          = .ok (.error (.syntaxRejected t.kind t.span docs))
        ∧ t ∈ lex "x ^^ /**d*/ )" := by
  intro s semi
  obtain ⟨s₀, start, offers, texts⟩ := end_of_file_ends_parse .all .toplevelPhrase .zero
  cases start
  have fed : ((driver .all).offerMany (initialState .toplevelPhrase) (lexWords "x ^^")).outcome
      = .intermediate s := rfl
  have reachable := Driver.Reachable.offerMany [] _ _ s .start fed
  have succeeds : ((driver .all).offer s semi).isSuccess = true := rfl
  refine ⟨(offers _ s _ reachable).1 rfl, succeeds, (offers _ s semi reachable).2 succeeds, ?_⟩
  rcases texts "x ^^ /**d*/ )" with ⟨p, parsed⟩ | ⟨t, docs, parsed, member, _⟩
  · cases (show Except.ok (Except.error _) = _ from parsed)
  · exact ⟨t, docs, parsed, member⟩

end TolerantParser.Mini
