import TolerantParser.Mini.Lexer
import TolerantParser.Proofs.Mini.Agreement
import TolerantParser.Proofs.Mini.Frontier.Texts

/-! # No text is lost

The stack carries the texts of the tokens read so far, in their order: a reduction rearranges
nothing and a shift adds the text of its token (`Carries`).  So a plain run that accepts hands every
text on to its tree.  An edit respells a token in its own characters, or sets it aside as a doc
comment (`Edit.cases`).  Together: the tree of a parse has the characters of the stream, without
those of the doc comments that were set aside (`offerMany_conserves_text`). -/

set_option autoImplicit false

namespace TolerantParser

def textsOf (ts : List Token) : List String := ts.flatMap (·.kind.spelled)

def commentsOf (ts : List Token) : List String := ts.filterMap (·.docstring?.map (·.text))

@[simp] theorem textsOf_append (ts us : List Token) :
    textsOf (ts ++ us) = textsOf ts ++ textsOf us :=
  List.flatMap_append

@[simp] theorem commentsOf_append (ts us : List Token) :
    commentsOf (ts ++ us) = commentsOf ts ++ commentsOf us :=
  List.filterMap_append

/-- The third list is made of the first two, each in its order. -/
inductive Interleaving {α : Type} : List α → List α → List α → Prop
  | nil : Interleaving [] [] []
  | left (x : α) (xs ys zs : List α)
      (rest : Interleaving xs ys zs) :
      Interleaving (x :: xs) ys (x :: zs)
  | right (y : α) (xs ys zs : List α)
      (rest : Interleaving xs ys zs) :
      Interleaving xs (y :: ys) (y :: zs)

namespace Interleaving

variable {α β : Type}

theorem append
    (xs ys zs us vs ws : List α)
    (first : Interleaving xs ys zs)
    (second : Interleaving us vs ws) :
    Interleaving (xs ++ us) (ys ++ vs) (zs ++ ws) := by
  induction first with
  | nil => exact second
  | left x xs ys zs _ ih => exact .left x _ _ _ ih
  | right y xs ys zs _ ih => exact .right y _ _ _ ih

theorem filterMap
    (f : α → Option β)
    (xs ys zs : List α)
    (interleaved : Interleaving xs ys zs) :
    Interleaving (xs.filterMap f) (ys.filterMap f) (zs.filterMap f) := by
  induction interleaved with
  | nil => exact .nil
  | left x xs ys zs _ ih =>
    cases image : f x with
    | none => simpa only [List.filterMap_cons_none image] using ih
    | some y => simpa only [List.filterMap_cons_some image] using .left y _ _ _ ih
  | right x xs ys zs _ ih =>
    cases image : f x with
    | none => simpa only [List.filterMap_cons_none image] using ih
    | some y => simpa only [List.filterMap_cons_some image] using .right y _ _ _ ih

end Interleaving

/-! ## Edits -/

/-- The tokens have the same characters to hand on, and the same doc comments. -/
structure SameContent (us ts : List Token) : Prop where
  text : String.join (textsOf us) = String.join (textsOf ts)
  comments : commentsOf us = commentsOf ts

theorem SameContent.append
    (us ts us' ts' : List Token)
    (first : SameContent us ts)
    (second : SameContent us' ts') :
    SameContent (us ++ us') (ts ++ ts') where
  text := by simp only [textsOf_append, String.join_append, first.text, second.text]
  comments := by simp only [commentsOf_append, first.comments, second.comments]

theorem sameContent_labelParts
    (t : Token)
    (parts : List Token)
    (fused : t.labelParts? = some parts) :
    SameContent parts [t] := by
  unfold Token.labelParts? at fused
  split at fused
  · next s kind =>
    obtain ⟨f, chars, rfl⟩ := Option.map_eq_some_iff.mp fused
    have spelling := (FusedLabel.ofChars?_eq_some_iff s f).mp chars
    have spelled : String.join (textsOf (f.tokens t.span)) = f.spelling
        ∧ commentsOf (f.tokens t.span) = [] := by
      obtain ⟨isOptional, op⟩ := f
      cases isOptional <;> cases op <;> exact ⟨rfl, rfl⟩
    refine ⟨?_, ?_⟩
    · rw [spelled.1, spelling]
      simp [textsOf, kind]
    · rw [spelled.2]
      simp [commentsOf, Token.docstring?, kind]
  · cases fused

theorem sameContent_markerTokens
    (t : Token)
    (n : Nat)
    (marked : t.kind.markerCount = some n) :
    SameContent (markerTokens n t.span.start) [t] := by
  have kind := ((t.kind.markerCount_eq_some_iff n).mp marked).1
  have texts : textsOf (markerTokens n t.span.start) = List.replicate n marker.toString := by
    simp [textsOf, markerTokens, markerToken, List.flatMap_map, ← List.map_eq_flatMap,
      List.map_const']
  have joined : ∀ n, String.join (List.replicate n marker.toString)
      = String.ofList (List.replicate n marker) := by
    intro n
    induction n with
    | zero => rfl
    | succ n ih =>
      rw [List.replicate_succ, List.replicate_succ, String.join_cons, ih, String.ofList_cons]
      rfl
  refine ⟨?_, ?_⟩
  · rw [texts, joined]
    simp [textsOf, kind]
  · simp [commentsOf, markerTokens, markerToken, Token.docstring?, kind]

theorem Edit.cases
    {h : Heuristics} {t : Token} {us : List Token} {ds : List Docstring}
    (edit : Edit h t us ds) :
    ds = [] ∧ SameContent us [t] ∨ ∃ doc, ds = [doc] ∧ us = [] ∧ t.docstring? = some doc := by
  cases edit with
  | keep => exact .inl ⟨rfl, rfl, rfl⟩
  | setAside doc enabled documents => exact .inr ⟨doc, rfl, rfl, documents⟩
  | separate enabled starts => exact .inl ⟨rfl, rfl, rfl⟩
  | split parts enabled fused => exact .inl ⟨rfl, sameContent_labelParts t us fused⟩
  | replay n enabled marked => exact .inl ⟨rfl, sameContent_markerTokens t n marked⟩

/-- An edited stream has the content of the tokens that are not set aside. -/
theorem Edits.exists_interleaving
    {h : Heuristics} {ts us : List Token} {ds : List Docstring}
    (edits : Edits h ts us ds) :
    ∃ kept aside, Interleaving kept aside ts ∧ aside.map Token.docstring? = ds.map some
      ∧ SameContent us kept := by
  induction edits with
  | nil => exact ⟨[], [], .nil, rfl, rfl, rfl⟩
  | @snoc ts us vs t ds es _ last ih =>
    obtain ⟨kept, aside, interleaved, documents, same⟩ := ih
    rcases last.cases with ⟨rfl, same'⟩ | ⟨doc, rfl, rfl, documents'⟩
    · refine ⟨kept ++ [t], aside, ?_, by rw [documents, List.append_nil], same.append _ _ _ _ same'⟩
      simpa using interleaved.append kept aside ts [t] [] [t] (.left t _ _ _ .nil)
    · refine ⟨kept, aside ++ [t], ?_, ?_, by rwa [List.append_nil]⟩
      · simpa using interleaved.append kept aside ts [] [t] [t] (.right t _ _ _ .nil)
      · simp [documents, documents']

namespace Mini

/-! ## Plain runs -/

section Runs
variable (goal : Goal)

structure Rearranges (s s' : Stack) : Prop where
  viable : Viable goal s'
  frontier : s'.frontier = s.frontier
  comments : s'.comments = s.comments

theorem Rearranges.reduce
    (t : Token)
    (s s' : Stack)
    (r : Reduction)
    (s'' : Stack)
    (rearranges : Rearranges goal s s')
    (next : nextAction goal t.tag s'.marks = .reduce r)
    (applied : r.apply s' = some s'') :
    Rearranges goal s s'' := by
  obtain ⟨rewrites, viable⟩ := rearranges.viable.rewrites_of_apply goal s' t r s'' next applied
  exact ⟨viable, (rewrites.frontier_eq r s' s'').trans rearranges.frontier,
    (rewrites.comments_eq r s' s'').trans rearranges.comments⟩

/-- The environment has the texts and the doc comments of the tokens `us` on its stack. -/
structure Carries (us : List Token) (env : Env) : Prop where
  sameGoal : env.goal = goal
  viable : Viable goal env.stack
  frontier : env.stack.frontier = textsOf us
  comments : env.stack.comments = commentsOf us

theorem carries_initialState : Carries goal [] (initialState goal).env := by
  refine ⟨rfl, viable_startStack goal, ?_, ?_⟩ <;> cases goal <;> rfl

theorem Carries.shift
    (us : List Token)
    (env next : Env)
    (t : Token)
    (carries : Carries goal us env)
    (arrived : automaton.offerSettled env t = .needsInput next) :
    Carries goal (us ++ [t]) next := by
  obtain ⟨_, s, la⟩ := env
  obtain ⟨rfl, viable, frontier, comments⟩ := carries
  obtain ⟨s', rearranges, action, rfl⟩ := exists_shift_of_needsInput _ t (Rearranges _ s)
    (Rearranges.reduce _ t s) s ⟨viable, rfl, rfl⟩ next arrived
  refine ⟨rfl, rearranges.viable.shift _ s' t action, ?_, ?_⟩
  · simp only [Stack.frontier, Symbol.frontier, rearranges.frontier, frontier]
    simp [textsOf]
  · simp only [Stack.comments, Symbol.comments, rearranges.comments, comments]
    cases documents : t.docstring? <;> simp [commentsOf, documents]

/-- The token that ends a run has no text, and what is accepted has all the others. -/
theorem Carries.accept
    (us : List Token)
    (env : Env)
    (t : Token)
    (v : Tree)
    (carries : Carries goal us env)
    (arrived : automaton.offerSettled env t = .accepted v) :
    v.frontier = textsOf (us ++ [t]) ∧ v.comments = commentsOf (us ++ [t]) := by
  obtain ⟨_, s, la⟩ := env
  obtain ⟨rfl, viable, frontier, comments⟩ := carries
  obtain ⟨s', rearranges, action, complete⟩ := exists_accept_of_accepted _ t (Rearranges _ s)
    (Rearranges.reduce _ t s) s ⟨viable, rfl, rfl⟩ v arrived
  obtain ⟨frontier', comments'⟩ := frontier_acceptedValue? _ s' v complete
  have noText : t.kind.spelled = [] ∧ t.docstring? = none := by
    rcases (rearranges.viable.accept _ s' t action).2 with ends | ⟨_, ends⟩
    · exact ⟨spelled_of_eof t ends, docstring?_eq_none t (by simp [ends])⟩
    · exact ⟨spelled_of_reserved t _ ends, docstring?_eq_none t (by simp [ends])⟩
  rw [frontier', rearranges.frontier, frontier, comments', rearranges.comments, comments]
  simp [textsOf, commentsOf, noText]

theorem Carries.run
    (us ts : List Token)
    (env : Env)
    (v : Tree)
    (carries : Carries goal us env)
    (run : automaton.run env ts = some (.accepted v)) :
    v.frontier = textsOf (us ++ ts) ∧ v.comments = commentsOf (us ++ ts) := by
  obtain ⟨before, t, last, rfl, read, ends⟩ := automaton.exists_last_of_run env ts v run
  have carried := automaton.history_of_run (Carries goal)
    (fun us env t next carries => carries.shift goal us env next t) env last us before carries read
  rw [← List.append_assoc]
  exact carried.accept goal (us ++ before) last t v ends

end Runs

/-- No text is lost, duplicated or moved.  The stream of a parse that succeeds is made of the tokens
that are kept and the doc comments that are set aside, which are the ones that the parse reports.
Read from left to right, the tree has the characters of the tokens that are kept, and its doc
comments are those among them, so that they and the ones set aside are all that there were. -/
theorem offerMany_conserves_text
    (h : Heuristics)
    (goal : Goal)
    (o : Offset) :
    ∃ s₀, (driver h).initial goal o = .ok s₀
      ∧ ∀ ts p, (driver h).offerMany s₀ ts = ⟨.success p, ts.length⟩ →
          ∃ kept aside, Interleaving kept aside ts
            ∧ aside.map Token.docstring? = p.docstrings.toList.map some
            ∧ String.join p.value.frontier = String.join (textsOf kept)
            ∧ p.value.comments = commentsOf kept
            ∧ Interleaving p.value.comments (p.docstrings.toList.map (·.text))
              (commentsOf ts) := by
  refine ⟨initialState goal, initial_driver h goal o, fun ts p fed => ?_⟩
  have history := Driver.History.initial (driver h) (initialState goal).env
  obtain ⟨us, edits, run⟩ :=
    history.exists_of_offerMany_success (driver h) _ [] [] ts (initialState goal) p fed
  obtain ⟨kept, aside, interleaved, documents, same⟩ := edits.exists_interleaving
  obtain ⟨frontier, comments⟩ :=
    (carries_initialState goal).run goal [] us (initialState goal).env p.value run
  refine ⟨kept, aside, interleaved, documents, ?_, ?_, ?_⟩
  · rw [frontier]
    exact same.text
  · rw [comments]
    exact same.comments
  · have texts : commentsOf aside = p.docstrings.toList.map (·.text) := by
      calc
        commentsOf aside
            = (aside.map Token.docstring?).filterMap (Option.map (·.text)) := by
          rw [List.filterMap_map]
          rfl
        _ = (p.docstrings.toList.map some).filterMap (Option.map (·.text)) := by rw [documents]
        _ = p.docstrings.toList.map (·.text) := by
          rw [List.filterMap_map, ← List.filterMap_eq_map]
          rfl
    rw [comments, ← texts, List.nil_append, same.comments]
    exact interleaved.filterMap _ kept aside ts

/-- A label operator that is split, a marker run that is read again, a separator that is put in,
and one of two doc comments set aside. -/
theorem offerMany_conserves_text_at_label :
    let ts := lex "/**k*/ f ( ~ l =- 1 ) ^^ /**d*/ open M"
    ∃ kept aside, Interleaving kept aside ts
      ∧ aside.map Token.docstring? = [some ⟨"d", ⟨.clamp 25, .clamp 31⟩⟩]
      ∧ String.join (textsOf kept) = "kfl=-1^^M"
      ∧ Interleaving ["k"] ["d"] (commentsOf ts) := by
  intro ts
  obtain ⟨s₀, start, conserves⟩ := offerMany_conserves_text .all .useFile .zero
  cases start
  let call : Tree := .call "f" [.labeled "l" false (some (.unary "-" (.int "1")))]
  have fed : (driver .all).offerMany (initialState .useFile) ts
      = ⟨.success ⟨.phrases [.documented "k" (.postfixed call ["^", "^"]), .openItem "M"],
          .ofList [⟨"d", ⟨.clamp 25, .clamp 31⟩⟩]⟩, ts.length⟩ := rfl
  obtain ⟨kept, aside, interleaved, documents, text, comments, all⟩ := conserves ts _ fed
  exact ⟨kept, aside, interleaved, documents, text.symm.trans rfl, all⟩

end Mini

end TolerantParser
