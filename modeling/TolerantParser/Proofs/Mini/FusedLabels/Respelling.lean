import TolerantParser.Mini.Lexer
import TolerantParser.Proofs.Driver.Stream
import TolerantParser.Proofs.Mini.FusedLabels.Decisions
import TolerantParser.Proofs.Mini.Respelling

/-! # Fused label operators are split behind the names that call for it

`respellLabels` spells the parts of a fused label operator out wherever the tokens before it are a
tilde or `let` and a name.  What the stack says of a state can be told from these tokens as well:
as long as the state `Tracks` them, they stand on top of the stack with nothing pending
(`Tracks.of_offer`).  So the operators that are respelled are those that the driver splits, and both
streams have the same result (`outcome_respellLabelsAfter`). -/

set_option autoImplicit false

namespace TolerantParser.Mini

def opensName (t : Tag) : Bool := t == .reserved .tilde || t == .reserved .kwLet

def endsInName : List Token → Bool
  | name :: keyword :: _ => name.tag == .text .lowerIdent && opensName keyword.tag
  | _ => false

/-- The token `t` where it comes after the tokens `before`, the last of them first: a fused label
operator behind a name of a label, or one that is being bound, in its parts. -/
def respellLabel (before : List Token) (t : Token) : List Token :=
  if endsInName before then t.labelParts?.getD [t] else [t]

def respellLabelsAfter (skipsDocs : Bool) : (before : List Token) → List Token → List Token
  | _, [] => []
  | before, t :: ts =>
    respellLabel before t
      ++ respellLabelsAfter skipsDocs
        (if skipsDocs && t.docstring?.isSome then before else t :: before) ts

/-- Spells out the parts of the fused label operators behind `~ name` and `let name`.  With
`skipsDocs` the doc comments between them do not count. -/
def respellLabels (skipsDocs : Bool) (ts : List Token) : List Token :=
  respellLabelsAfter skipsDocs [] ts

/-! ## What the tokens before a state say of its stack -/

/-- If the tokens that led to the state end in a keyword that a name follows, or in such a name,
then these stand on top of its stack and nothing is pending. -/
structure Tracks (before : List Token) (s : State Env) : Prop where
  keyword : ∀ t, before.head? = some t → opensName t.tag = true →
    s.pending = none ∧ [.token t.tag] <+: s.env.stack.marks
  name : endsInName before = true →
    s.pending = none ∧ (Names .tilde s.env.stack.marks ∨ Names .kwLet s.env.stack.marks)

theorem tag_of_opensName
    (t : Tag)
    (opens : opensName t = true) :
    t = .reserved .tilde ∨ t = .reserved .kwLet := by
  simpa [opensName] using opens

theorem Tracks.start (s : State Env) : Tracks [] s where
  keyword := by simp
  name := by simp [endsInName]

section Offers
variable (h : Heuristics) (s next : State Env) (t : Token)

theorem exists_top_of_offer
    (noDoc : t.docstring? = none)
    (noLabel : t.labelParts? = none)
    (unmarked : t.kind.markerCount = none)
    (offered : (driver h).offer s t = .intermediate next) :
    ∃ below, next.env.stack = .token t :: below := by
  have taken := (driver h).taken_of_offer s t (by rw [offered]; rfl)
  generalize (driver h).offer s t = o at taken offered
  cases taken with
  | kept env reading =>
    obtain ⟨arrived, _⟩ := ((driver h).read_eq_intermediate_iff env s.docstrings t next).mp offered
    obtain ⟨below, standing⟩ := exists_top_of_offerSettled env next.env t arrived
    exact ⟨below, by rw [standing]⟩
  | setAside doc edit =>
    have documents := edit.documents
    rw [noDoc] at documents
    cases documents
  | replaced parts env x o edit reading run concluded =>
    subst offered
    obtain ⟨rfl, _⟩ := Driver.conclude_eq_intermediate _ _ _ concluded
    refine exists_top_of_run env next.env parts t run ?_
    cases edit with
    | keep => rfl
    | separate => rfl
    | split parts _ fused =>
      rw [noLabel] at fused
      cases fused
    | replay n _ marked =>
      rw [unmarked] at marked
      cases marked

theorem offer_docstring_of_refusal
    (diverts : h.docstrings = true)
    (doc : Docstring)
    (documents : t.docstring? = some doc)
    (closed : s.pending = none)
    (refused : nextAction s.env.goal t.tag s.env.stack.marks = .error) :
    (driver h).offer s t = .intermediate (s.addDocstring doc) := by
  obtain ⟨f, stepped⟩ := step_of_refusal h s t closed refused
  exact (driver h).offer_of_refused_docstring s t doc f diverts documents stepped

theorem nextAction_of_keyword
    (goal : Goal)
    (keyword la : Tag)
    (ms : List Mark)
    (opens : opensName keyword = true)
    (standing : [.token keyword] <+: ms) :
    nextAction goal la ms = .shiftIf (la == .text .lowerIdent) := by
  obtain ⟨rest, rfl⟩ := standing
  rcases tag_of_opensName keyword opens with rfl | rfl <;> rfl

theorem standing_of_keyword
    (opens : opensName t.tag = true)
    (offered : (driver h).offer s t = .intermediate next) :
    next.pending = none ∧ [.token t.tag] <+: next.env.stack.marks := by
  have tagged := tag_of_opensName t.tag opens
  have noDoc : t.docstring? = none :=
    docstring?_eq_none t (by rcases tagged with tagged | tagged <;> simp [tagged])
  have unmarked : t.kind.markerCount = none :=
    markerCount_eq_none_of_tag t (by rcases tagged with tagged | tagged <;> simp [tagged])
  have noLabel : t.labelParts? = none := by
    cases fused : t.labelParts? with
    | none => rfl
    | some parts => simp [(tags_of_labelParts t parts fused).1] at tagged
  obtain ⟨below, standing⟩ := exists_top_of_offer h s next t noDoc noLabel unmarked offered
  refine ⟨?_, by simp [standing]⟩
  exact ((driver h).pending_of_offer s next t unmarked offered).resolve_right
    fun ⟨isDoc, _⟩ => isDoc noDoc

theorem names_of_name
    (keyword : Tag)
    (opens : opensName keyword = true)
    (standing : [.token keyword] <+: s.env.stack.marks)
    (isName : t.tag = .text .lowerIdent)
    (offered : (driver h).offer s t = .intermediate next) :
    next.pending = none
      ∧ (Names .tilde next.env.stack.marks ∨ Names .kwLet next.env.stack.marks) := by
  have taken := nextAction_of_keyword s.env.goal keyword t.tag _ opens standing
  have unmarked := markerCount_eq_none_of_tag t (by rw [isName]; decide)
  rw [offer_of_shift h s t unmarked (by rw [taken, isName]; rfl)] at offered
  cases offered
  refine ⟨rfl, ?_⟩
  rcases tag_of_opensName keyword opens with rfl | rfl
  · left
    simpa [Names, isName] using standing
  · right
    simpa [Names, isName] using standing

theorem Tracks.of_docstring
    (before : List Token)
    (tracks : Tracks before s)
    (diverts : h.docstrings = true)
    (doc : Docstring)
    (documents : t.docstring? = some doc)
    (offered : (driver h).offer s t = .intermediate next) :
    Tracks before next := by
  have isDoc := tag_of_docstring? t doc documents
  have stays : s.pending = none →
      nextAction s.env.goal t.tag s.env.stack.marks = .error → next = s.addDocstring doc := by
    intro closed refused
    rw [offer_docstring_of_refusal h s t diverts doc documents closed refused] at offered
    cases offered
    rfl
  constructor
  · intro keyword isLast opens
    obtain ⟨closed, standing⟩ := tracks.keyword keyword isLast opens
    have refused := nextAction_of_keyword s.env.goal keyword.tag t.tag _ opens standing
    rw [stays closed (by rw [refused, isDoc]; rfl)]
    exact ⟨closed, standing⟩
  · intro ends
    obtain ⟨closed, names⟩ := tracks.name ends
    have refused : nextAction s.env.goal t.tag s.env.stack.marks = .error := by
      rcases names with names | names
      · exact nextAction_of_names s.env.goal .tilde _ t.tag (.inl rfl) names (.inr isDoc)
      · exact nextAction_of_names s.env.goal .kwLet _ t.tag (.inr rfl) names (.inr isDoc)
    rw [stays closed refused]
    exact ⟨closed, names⟩

theorem Tracks.of_offer
    (before : List Token)
    (tracks : Tracks before s)
    (offered : (driver h).offer s t = .intermediate next) :
    Tracks (t :: before) next := by
  constructor
  · intro keyword isLast opens
    obtain rfl : t = keyword := by simpa using isLast
    exact standing_of_keyword h s next t opens offered
  · intro ends
    cases before with
    | nil => cases ends
    | cons keyword before =>
      simp only [endsInName, Bool.and_eq_true, beq_iff_eq] at ends
      obtain ⟨isName, opens⟩ := ends
      obtain ⟨_, standing⟩ := tracks.keyword keyword rfl opens
      exact names_of_name h s next t keyword.tag opens standing isName offered

end Offers

/-! ## Streams -/

section Streams
variable (h : Heuristics) (enabled : h.labelSplit = true)
include enabled

theorem offer_respellLabel
    (before : List Token)
    (s : State Env)
    (t : Token)
    (tracks : Tracks before s) :
    SameUnlessErrors ((driver h).offer s t)
      ((driver h).offerMany s (respellLabel before t)).outcome := by
  have unchanged : (driver h).offer s t = ((driver h).offerMany s [t]).outcome := by
    simp only [Driver.offerMany]
    cases (driver h).offer s t <;> rfl
  unfold respellLabel
  split
  · next ends =>
    obtain ⟨closed, names⟩ := tracks.name ends
    cases fused : t.labelParts? with
    | none => exact .inl unchanged
    | some parts =>
      rw [Option.getD_some]
      rcases names with labels | binds
      · obtain ⟨next, offered, fed⟩ := offer_label h enabled s t parts closed fused labels
        exact .inl (offered.trans fed.symm)
      · rcases offer_binder h enabled s t parts closed fused binds with
          ⟨next, offered, fed⟩ | refused
        · exact .inl (offered.trans fed.symm)
        · exact .inr refused
  · exact .inl unchanged

/-- The induction is on the stream; what carries it is that the state tracks the tokens before
it. -/
theorem outcome_respellLabelsAfter
    (before : List Token)
    (s : State Env)
    (ts : List Token)
    (p : Parsed Tree)
    (tracks : Tracks before s) :
    ((driver h).offerMany s ts).outcome = .success p
      ↔ ((driver h).offerMany s (respellLabelsAfter h.docstrings before ts)).outcome
        = .success p := by
  induction ts generalizing before s with
  | nil => exact Iff.rfl
  | cons t ts ih =>
    rw [respellLabelsAfter]
    rcases offer_respellLabel h enabled before s t tracks with fed | ⟨f, f', offered, fed⟩
    · cases offered : (driver h).offer s t with
      | intermediate next =>
        rw [offered] at fed
        rw [(driver h).offerMany_cons_of_intermediate s next t ts offered,
          (driver h).offerMany_append s next _ _ fed.symm]
        apply ih
        split
        · next skipped =>
          obtain ⟨diverts, isDoc⟩ := Bool.and_eq_true_iff.mp skipped
          obtain ⟨doc, documents⟩ := Option.isSome_iff_exists.mp isDoc
          exact tracks.of_docstring h s next t before diverts doc documents offered
        · exact tracks.of_offer h s next t before offered
      | success _ | error _ =>
        -- both streams end here, in the same way
        rw [offered] at fed
        rw [(driver h).offerMany_append_of_ended s _ _ (by rw [← fed]; rfl), ← fed]
        simp only [Driver.offerMany, offered]
    · rw [(driver h).offerMany_append_of_ended s _ _ (by rw [fed]; rfl), fed]
      simp [Driver.offerMany, offered]

/-- A driver that splits fused label operators does so where the grammar needs it and nowhere else.
Behind the name of a label such an operator always leads where its parts lead; behind a name that is
being bound it leads where they lead, if they lead anywhere; in any other state that a parse comes
by, it is read as it is.  So a parse that succeeds has the same result if the operators behind
`~ name` and `let name` are spelled in their parts. -/
theorem split_of_fused_labels
    (goal : Goal)
    (o : Offset) :
    ∃ s₀, (driver h).initial goal o = .ok s₀
      ∧ (∀ history s t parts, (driver h).Reachable s₀ history s → t.labelParts? = some parts →
          (Names .tilde s.env.stack.marks → ∃ next, (driver h).offer s t = .intermediate next
            ∧ ((driver h).offerMany s parts).outcome = .intermediate next)
          ∧ (Names .kwLet s.env.stack.marks → ∀ next, (driver h).offer s t = .intermediate next
            ↔ ((driver h).offerMany s parts).outcome = .intermediate next)
          ∧ (¬ Names .tilde s.env.stack.marks → ¬ Names .kwLet s.env.stack.marks →
            (driver h).offer s t = (driver h).step s t))
      ∧ ∀ ts p, (driver h).parse goal o ts = .ok (.ok p)
          ↔ (driver h).parse goal o (respellLabels h.docstrings ts) = .ok (.ok p) := by
  refine ⟨initialState goal, initial_driver h goal o, ?_, ?_⟩
  · intro history s t parts reachable fused
    refine ⟨fun labels => ?_, fun binds => ?_, fun noLabel noBinder => ?_⟩
    · have closed := pending_eq_none_of_names h goal history s .tilde reachable labels
      exact offer_label h enabled s t parts closed fused labels
    · have closed := pending_eq_none_of_names h goal history s .kwLet reachable binds
      exact (offer_of_names h enabled s t parts closed fused .kwLet (.inr rfl) binds).1
    · exact offer_of_no_name h goal history s t parts reachable fused noLabel noBinder
  · intro ts p
    simp only [Driver.parse, initial_driver, Except.map, Except.ok.injEq,
      (driver h).parseFrom_eq_ok_iff]
    exact outcome_respellLabelsAfter h enabled [] (initialState goal) ts p (.start _)

end Streams

/-- An operator behind a bound name and its doc comment, one behind a label, and the state before
the second of them. -/
theorem split_of_fused_labels_at_names :
    let ts := lex "let x /**d*/ =- 1 ; f ( ~ l =?- 2 )"
    let t : Token := ⟨.text .infixOp0 "=?-", ⟨.clamp 28, .clamp 31⟩⟩
    (respellLabels true ts ≠ ts
        ∧ (driver .all).parse .useFile .zero (respellLabels true ts)
          = .ok (.ok ⟨.phrases [.letItem "x" (.unary "-" (.int "1")),
              .call "f" [.labeled "l" true (some (.unary "-" (.int "2")))]],
              .ofList [⟨"d", ⟨.clamp 6, .clamp 12⟩⟩]⟩))
      ∧ ∃ s next, ((driver .all).offerMany (initialState .useFile) (ts.take 10)).outcome
            = .intermediate s
          ∧ Names .tilde s.env.stack.marks ∧ (driver .all).offer s t = .intermediate next := by
  intro ts t
  obtain ⟨s₀, start, splits, parses⟩ := split_of_fused_labels .all rfl .useFile .zero
  cases start
  refine ⟨⟨by decide, (parses ts _).mp rfl⟩, ?_⟩
  obtain ⟨s, fed, labels⟩ : ∃ s, ((driver .all).offerMany (initialState .useFile)
      (ts.take 10)).outcome = .intermediate s ∧ Names .tilde s.env.stack.marks :=
    ⟨_, rfl, ⟨_, rfl⟩⟩
  obtain ⟨next, offered, _⟩ := (splits _ s t _ (.offerMany [] _ _ s .start fed) rfl).1 labels
  exact ⟨s, next, fed, labels, offered⟩

end TolerantParser.Mini
