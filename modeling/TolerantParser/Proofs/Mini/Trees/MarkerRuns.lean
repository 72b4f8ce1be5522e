import TolerantParser.Mini.Lexer
import TolerantParser.Proofs.Driver.SourceOrder
import TolerantParser.Proofs.Mini.Agreement
import TolerantParser.Proofs.Mini.MarkerReading

/-! # Marker runs in what is parsed

A marker run that is read again leaves one node on the stack, however many markers it has.
`Wraps` says which: the first marker stands behind an operand, and when the last one is reduced,
all of them have been applied to it (`exists_wraps`).

What a tree on the stack is rendered as stays in one piece from then on.  `Tree.Shows` says that a
rendering has another one in it, no reduction loses what a stack shows (`Rewrites.shows`), and so
it is there in the value that is accepted.  With the nested form of trees this makes
`marker_runs_render_nested`: `n` opening parentheses before the operand, and ` ^)` `n` times
behind it. -/

set_option autoImplicit false

namespace TolerantParser.Mini

/-! ## What a rendering has in it -/

namespace Tree

def Shows (v part : Tree) : Prop := ∃ before after, v.render = before ++ part.render ++ after

theorem Shows.refl (v : Tree) : v.Shows v := ⟨"", "", by simp⟩

theorem Shows.within
    {v w part : Tree}
    (before after : String)
    (written : w.render = before ++ v.render ++ after)
    (shows : v.Shows part) :
    w.Shows part := by
  obtain ⟨before', after', inner⟩ := shows
  refine ⟨before ++ before', after' ++ after, ?_⟩
  rw [written, inner]
  simp only [String.append_assoc]

theorem exists_renderEach_eq
    (v : Tree)
    (ts : List Tree)
    (member : v ∈ ts) :
    ∃ before after, renderEach ts = before ++ v.render ++ after := by
  obtain ⟨us, ws, rfl⟩ := List.append_of_mem member
  induction us with
  | nil => exact ⟨" ", renderEach ws, rfl⟩
  | cons u us ih =>
    obtain ⟨before, after, written⟩ := ih (by simp)
    refine ⟨" " ++ u.render ++ before, after, ?_⟩
    rw [List.cons_append, renderEach, written]
    simp only [String.append_assoc]

theorem Shows.within_each
    {w part : Tree}
    (ts : List Tree)
    (before after : String)
    (written : w.render = before ++ renderEach ts ++ after)
    (shows : ∃ v ∈ ts, v.Shows part) :
    w.Shows part := by
  obtain ⟨v, member, shows⟩ := shows
  obtain ⟨before', after', inner⟩ := exists_renderEach_eq v ts member
  refine shows.within (before ++ before') (after' ++ after) ?_
  rw [written, inner]
  simp only [String.append_assoc]

theorem Shows.applyPostfix
    {e part : Tree}
    (op : String)
    (shows : e.Shows part) :
    (e.applyPostfix op).Shows part :=
  shows.within (openings [op]) (closings [op]) (e.render_applyPostfixes [op])

end Tree

/-- One of the trees that the symbol holds has the rendering of `part` in its own. -/
def Symbol.Shows (x : Symbol) (part : Tree) : Prop :=
  match x with
  | .token _ => False
  | .expr e => e.Shows part
  | .args as => ∃ a ∈ as, a.Shows part
  | .type t => t.Shows part
  | .item i => i.Shows part
  | .items is _ => ∃ i ∈ is, i.Shows part

def Stack.Shows (s : Stack) (part : Tree) : Prop := ∃ x ∈ s, x.Shows part

section Reductions
variable (part : Tree) (s s' : Stack)

@[simp] theorem shows_nil : ¬ Stack.Shows [] part := by simp [Stack.Shows]

@[simp] theorem shows_cons (x : Symbol) :
    Stack.Shows (x :: s) part ↔ x.Shows part ∨ s.Shows part := by
  simp [Stack.Shows]

theorem exists_shows_concat
    (ts : List Tree)
    (t : Tree) :
    (∃ v ∈ ts ++ [t], v.Shows part) ↔ (∃ v ∈ ts, v.Shows part) ∨ t.Shows part := by
  simp [or_and_right, exists_or]

theorem Joins.shows
    (arg : Tree)
    (joins : Joins arg s s')
    (shows : arg.Shows part ∨ s.Shows part) :
    s'.Shows part := by
  cases joins with
  | first s => simpa [Symbol.Shows] using shows
  | next comma as s parts =>
    simp only [shows_cons, Symbol.Shows, false_or, exists_shows_concat] at shows ⊢
    exact or_assoc.mpr (or_left_comm.mp shows)

theorem Rewrites.shows
    (r : Reduction)
    (rewrites : Rewrites r s s')
    (shows : s.Shows part) :
    s'.Shows part := by
  cases rewrites with
  | atom t v s isAtom =>
    simp only [shows_cons, Symbol.Shows, false_or] at shows ⊢
    exact .inr shows
  | group left right e s opens closes => simpa [Symbol.Shows] using shows
  | openCall f left s callee opens => simpa [Symbol.Shows] using shows
  | closeCall f left right name as s callee opens closes =>
    simp only [shows_cons, Symbol.Shows, false_or] at shows ⊢
    exact shows.imp_left (.within_each as ("(call " ++ name) ")" rfl)
  | argument e s s' joins => exact joins.shows part s s' e (by simpa [Symbol.Shows] using shows)
  | punnedLabel tilde label name s s' marks names joins =>
    exact joins.shows part s s' _ (.inr (by simpa [Symbol.Shows] using shows))
  | labeledArgument tilde label equal name e s s' marks names binds joins =>
    simp only [shows_cons, Symbol.Shows, false_or] at shows
    exact joins.shows part s s' _
      (shows.imp_left (.within ("~" ++ name ++ "=") "" (by simp [Tree.render])))
  | optionalArgument tilde label equal question name e s s' marks names binds omits joins =>
    simp only [shows_cons, Symbol.Shows, false_or] at shows
    exact joins.shows part s s' _
      (shows.imp_left (.within ("~" ++ name ++ "=?") "" (by simp [Tree.render])))
  | unaryOp op e s isUnary =>
    simp only [shows_cons, Symbol.Shows, false_or] at shows ⊢
    exact shows.imp_left (.within ("(" ++ op.kind.wording ++ " ") ")" rfl)
  | postfixOp op e s isPostfix =>
    simp only [shows_cons, Symbol.Shows, false_or] at shows ⊢
    exact shows.imp_left (.applyPostfix op.kind.wording)
  | binaryOp op p a b s isBinary =>
    simp only [shows_cons, Symbol.Shows, false_or] at shows ⊢
    rcases shows with right | left | below
    · exact .inl (right.within ("(" ++ op.kind.wording ++ " " ++ a.render ++ " ") ")" rfl)
    · refine .inl (left.within ("(" ++ op.kind.wording ++ " ") (" " ++ b.render ++ ")") ?_)
      simp only [Tree.render, String.append_assoc]
    · exact .inr below
  | typeName t c name s names isName =>
    simp only [shows_cons, Symbol.Shows, false_or] at shows ⊢
    exact .inr shows
  | typeApplication t name arg s names =>
    simp only [shows_cons, Symbol.Shows, false_or] at shows ⊢
    exact shows.imp_left (.within ("(" ++ name ++ " ") ")" rfl)
  | exprItem e s => simpa [Symbol.Shows] using shows
  | letItem kwLet label equal name e s lets names binds =>
    simp only [shows_cons, Symbol.Shows, false_or] at shows ⊢
    exact shows.imp_left (.within ("(let " ++ name ++ " ") ")" rfl)
  | valItem kwLet label colon name ty s lets names declares =>
    simp only [shows_cons, Symbol.Shows, false_or] at shows ⊢
    exact shows.imp_left (.within ("(val " ++ name ++ " ") ")" rfl)
  | openItem kwOpen label name s opens names =>
    simp only [shows_cons, Symbol.Shows, false_or] at shows ⊢
    exact .inr shows
  | docItem doc text i s documents =>
    simp only [shows_cons, Symbol.Shows, false_or] at shows ⊢
    exact shows.imp_left (.within ("(doc " ++ Text.quoted text ++ " ") ")" rfl)
  | appendItem i is isOpen s =>
    simp only [shows_cons, Symbol.Shows, exists_shows_concat] at shows ⊢
    exact or_assoc.mpr (or_left_comm.mp shows)
  | closeItem semi is isOpen s parts => simpa [Symbol.Shows] using shows

end Reductions

theorem shows_acceptedValue?
    (goal : Goal)
    (s : Stack)
    (part v : Tree)
    (complete : acceptedValue? goal s = some v)
    (shows : s.Shows part) :
    v.Shows part := by
  unfold acceptedValue? at complete
  split at complete <;> cases complete <;>
    simp only [shows_cons, shows_nil, Symbol.Shows, or_false] at shows
  · exact .within_each _ "(module" ")" rfl shows
  · exact .within_each _ "(sig" ")" rfl shows
  · exact .within_each _ "(phrases" ")" rfl shows
  all_goals exact shows

/-! ## Marker runs that are read again -/

/-- Read as postfix operators, the markers of `p` take `operand` from the stack and leave `whole`
in its place: the first one is taken up right behind the operand, and whatever comes after the last
one, the reduction that is due makes the whole. -/
structure Wraps (p : Pending Env) (operand whole : Tree) (below : Stack) (after : Env) : Prop where
  first : automaton.offerSettled p.fallback (markerToken p.position 0)
    = .needsInput
        ⟨p.fallback.goal, .token (markerToken p.position 0) :: .expr operand :: below, none⟩
  all : automaton.offerAll p.fallback (markerTokens p.count p.position) = some after
  due : ∀ la, reduced? after.goal after.stack la = some (.expr whole :: below)

theorem wording_markerTokens
    (n : Nat)
    (o : Offset) :
    (markerTokens n o).map (·.kind.wording) = List.replicate n "^" := by
  induction n generalizing o with
  | zero => rfl
  | succ n ih =>
    rw [markerTokens_succ, List.map_cons, ih, List.replicate_succ]
    rfl

theorem exists_wraps
    (p : Pending Env)
    (last : Token)
    (env : Env)
    (marked : last.kind.markerCount = some p.count)
    (arrived : automaton.offerSettled p.fallback last = .needsInput env) :
    ∃ operand below after,
      Wraps p operand (operand.applyPostfixes (List.replicate p.count "^")) below after := by
  obtain ⟨n, counted⟩ : ∃ n, p.count = n + 1 :=
    Nat.exists_eq_add_of_le' ((last.kind.markerCount_eq_some_iff p.count).mp marked).2.1
  have spelled := markerTokens_succ n p.position
  have wordings := wording_markerTokens (n + 1) p.position
  rw [spelled] at wordings
  -- both readings need the same expression, so the one that was taken up speaks for the other
  rcases settled_marker p.fallback.goal p.fallback.stack last (markerToken p.position 0)
      (tag_of_markerCount last p.count marked) rfl with
    ⟨_, operand, below, _, taken⟩ | ⟨_, _, refused, _⟩
  · obtain ⟨q, e, isPostfix, applied, offered⟩ :=
      offerAll_above_postfixed p.fallback.goal below (markerToken p.position 0) operand none
        (markerTokens n (p.position.advance 1)) rfl (tag_of_mem_markerTokens n _)
    rw [wordings, ← counted] at applied
    rw [ite_self] at offered
    refine ⟨operand, below, ⟨p.fallback.goal, .token q :: .expr e :: below, none⟩, taken, ?_, ?_⟩
    · rw [counted, spelled, Automaton.offerAll, offerSettled_eq, taken]
      exact offered
    · intro la
      rw [reduced?_eq_some_iff]
      refine ⟨.postfixOp, ?_, by rw [← applied]; rfl⟩
      simp only [marks_cons, mark_token, mark_expr, nextAction, onToken, isPostfix]
  · rw [offerSettled_eq, refused] at arrived
    cases arrived

/-- Whatever is offered, it settles as on some viable stack that has the rendering in it. -/
def Keeps (goal : Goal) (part : Tree) (env : Env) : Prop :=
  env.goal = goal
    ∧ ∃ s, (Viable goal s ∧ s.Shows part) ∧ ∀ t, settled goal env.stack t = settled goal s t

section Keeping
variable (goal : Goal) (part : Tree)

theorem viable_shows_reduce
    (t : Token)
    (s : Stack)
    (r : Reduction)
    (s' : Stack)
    (keeps : Viable goal s ∧ s.Shows part)
    (next : nextAction goal t.tag s.marks = .reduce r)
    (applied : r.apply s = some s') :
    Viable goal s' ∧ s'.Shows part := by
  obtain ⟨rewrites, viable⟩ := keeps.1.rewrites_of_apply goal s t r s' next applied
  exact ⟨viable, rewrites.shows part s s' r keeps.2⟩

theorem Keeps.shift
    (env : Env)
    (t : Token)
    (next : Env)
    (keeps : Keeps goal part env)
    (arrived : automaton.offerSettled env t = .needsInput next) :
    Keeps goal part next := by
  obtain ⟨rfl, s, start, same⟩ := keeps
  rw [offerSettled_eq, same] at arrived
  obtain ⟨s', ⟨viable, shows⟩, action, rfl⟩ := exists_shift_of_needsInput env.goal t
    (fun s => Viable env.goal s ∧ s.Shows part) (viable_shows_reduce env.goal part t) s start next
    arrived
  refine ⟨rfl, .token t :: s', ⟨viable.shift env.goal s' t action, ?_⟩, fun _ => rfl⟩
  exact (shows_cons part s' (.token t)).mpr (.inr shows)

theorem Keeps.accept
    (env : Env)
    (t : Token)
    (v : Tree)
    (keeps : Keeps goal part env)
    (arrived : automaton.offerSettled env t = .accepted v) :
    v.Shows part := by
  obtain ⟨rfl, s, start, same⟩ := keeps
  rw [offerSettled_eq, same] at arrived
  obtain ⟨s', ⟨_, shows⟩, _, complete⟩ := exists_accept_of_accepted env.goal t
    (fun s => Viable env.goal s ∧ s.Shows part) (viable_shows_reduce env.goal part t) s start v
    arrived
  exact shows_acceptedValue? env.goal s' part v complete shows

end Keeping

theorem Wraps.keeps
    (goal : Goal)
    (p : Pending Env)
    (operand whole : Tree)
    (below : Stack)
    (after : Env)
    (wraps : Wraps p operand whole below after)
    (viable : p.fallback.goal = goal ∧ Viable goal p.fallback.stack) :
    Keeps goal whole after := by
  obtain ⟨rfl, viable'⟩ := automaton.invariant_of_run
    (fun env => env.goal = goal ∧ Viable goal env.stack) (viable_of_offerSettled goal) p.fallback
    after _ viable ((automaton.offerAll_eq_some_iff _ _ _).mp wraps.all)
  have made : ∀ t : Token, ∃ r, nextAction after.goal t.tag after.stack.marks = .reduce r
      ∧ r.apply after.stack = some (.expr whole :: below) :=
    fun t => (reduced?_eq_some_iff _ _ _ _).mp (wraps.due t.tag)
  refine ⟨rfl, .expr whole :: below, ⟨?_, ?_⟩, ?_⟩
  · -- the reduction is due whatever the token, and any of them shows that it keeps stacks viable
    obtain ⟨t, _⟩ := exists_token_of_tag .eof
    obtain ⟨r, next, applied⟩ := made t
    exact (viable'.rewrites_of_apply _ _ t r _ next applied).2
  · exact (shows_cons whole below (.expr whole)).mpr (.inl (.refl whole))
  · intro t
    obtain ⟨r, next, applied⟩ := made t
    exact settled_of_reduce _ _ _ t r next applied

/-- Every tree, flat runs and all, is rendered as its nested form is printed.  In particular every
marker run that a parse comes by can be read again, as postfix operators behind an operand; the
node that this makes is rendered as the operand between an opening parenthesis and a ` ^)` for each
marker; and wherever the run is read so, that rendering stands in that of the value which is parsed
in the end. -/
theorem marker_runs_render_nested :
    (∀ v : Tree, v.render = v.nested.print)
      ∧ ∀ (h : Heuristics) (goal : Goal) (history : List Token) (s : State Env) (p : Pending Env),
          (driver h).Reachable (initialState goal) history s → s.pending = some p →
          ∃ operand whole below after,
            Wraps p operand whole below after
              ∧ whole.render = String.join (List.replicate p.count "(") ++ operand.render
                  ++ String.join (List.replicate p.count " ^)")
              ∧ ∀ t o, (driver h).reread p s.docstrings t = some o →
                  (∀ q, o = .success q → q.value.Shows whole)
                    ∧ ∀ next ts q, o = .intermediate next →
                        ((driver h).offerMany next ts).outcome = .success q →
                        q.value.Shows whole := by
  refine ⟨Tree.render_eq_print_nested, ?_⟩
  intro h goal history s p reachable pending
  obtain ⟨_, last, _, behind⟩ :=
    Driver.Reachable.behind (driver h) (initialState goal) s history rfl reachable p pending
  obtain ⟨operand, below, after, wraps⟩ := exists_wraps p last s.env behind.marked behind.arrived
  have keeps := wraps.keeps goal p operand _ below after
    ((viable_of_reachable h goal history s reachable).2 p pending)
  refine ⟨operand, _, below, after, wraps, ?_, ?_⟩
  · rw [Tree.render_applyPostfixes]
    simp [Tree.openings, Tree.closings, List.map_replicate]
  · intro t o again
    obtain ⟨after', replayed, adopted⟩ := Option.bind_eq_some_iff.mp again
    obtain rfl : after = after' := Option.some.inj (wraps.all.symm.trans replayed)
    obtain ⟨read, _⟩ := (Outcome.notError?_eq_some_iff _ _).mp adopted
    constructor
    · rintro q rfl
      exact keeps.accept goal _ after t q.value
        (((driver h).read_eq_success_iff after s.docstrings t q).mp read).1
    · rintro next ts q rfl fed
      obtain ⟨arrived, _, pending'⟩ :=
        ((driver h).read_eq_intermediate_iff after s.docstrings t next).mp read
      refine (driver h).holds_of_offerMany_success (Keeps goal _) (Keeps.shift goal _)
        (fun v => v.Shows _) (Keeps.accept goal _) next ts q ⟨?_, ?_⟩ fed
      · exact keeps.shift goal _ after t next.env arrived
      · -- if `t` is a marker run in turn, what it falls back on is `after`
        intro p' pending''
        rw [(((driver h).pendingAfter_eq_some_iff after t p').mp (pending' ▸ pending'')).2.2.1]
        exact keeps

/-- Two markers and a doc comment inside a call: the comma is refused behind an infix operator, and
the call is rendered with the nested run in it. -/
theorem marker_runs_render_nested_in_call :
    let comma : Token := ⟨.reserved .comma, ⟨.clamp 16, .clamp 17⟩⟩
    let opened : Stack := [.args [], .token ⟨.reserved .lparen, ⟨.clamp 2, .clamp 3⟩⟩,
      .token ⟨.text .lowerIdent "f", ⟨.clamp 0, .clamp 1⟩⟩]
    let x : Token := ⟨.text .lowerIdent "x", ⟨.clamp 4, .clamp 5⟩⟩
    let p : Pending Env := ⟨⟨.expression, .token x :: opened, none⟩, 2, .clamp 6⟩
    let s : State Env := ⟨⟨.expression, .token ⟨.text .infixOp1 "^^", ⟨.clamp 6, .clamp 8⟩⟩
      :: .expr (.var "x") :: opened, none⟩, .ofList [⟨"d", ⟨.clamp 9, .clamp 15⟩⟩], some p⟩
    ((driver .all).offerMany (initialState .expression) (lexWords "f ( x ^^ /**d*/")).outcome
        = .intermediate s
      ∧ ((driver .all).read s.env s.docstrings comma).isError = true
      ∧ ∃ operand whole below after, Wraps p operand whole below after
        ∧ whole.render = "((" ++ operand.render ++ " ^) ^)"
        ∧ ∃ before after, "(call f ((x ^) ^) 1)" = before ++ whole.render ++ after := by
  intro comma opened x p s
  have fed : ((driver .all).offerMany (initialState .expression)
      (lexWords "f ( x ^^ /**d*/")).outcome = .intermediate s := rfl
  refine ⟨fed, rfl, ?_⟩
  obtain ⟨operand, whole, below, after, wraps, written, ends⟩ :=
    marker_runs_render_nested.2 .all .expression _ s p (.offerMany [] _ _ s .start fed) rfl
  let next : State Env := ⟨⟨.expression, .token comma
    :: .args [.postfixed (.var "x") ["^", "^"]] :: opened.tail, none⟩, s.docstrings, none⟩
  have again : (driver .all).reread p s.docstrings comma = some (.intermediate next) := rfl
  let call : Tree := .call "f" [.postfixed (.var "x") ["^", "^"], .int "1"]
  have parsed : ((driver .all).offerMany next
      ((lex "f ( x ^^ /**d*/ , 1 )").drop 6)).outcome = .success ⟨call, s.docstrings⟩ := rfl
  exact ⟨operand, whole, below, after, wraps, written, (ends comma _ again).2 next _ _ rfl parsed⟩

end TolerantParser.Mini
