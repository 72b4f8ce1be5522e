import TolerantParser.Proofs.Mini.Trees.WellFormed

/-! # Well-formed trees and their spellings

`Tree.spelling` writes a tree down with parentheses around every operator and its operands, so that
no level of the grammar matters.  Tokens of these kinds derive the tree if it is well formed
(`Formed.derives`), hence they parse to it.  With the other direction, the trees that parses come to
are exactly the well-formed ones (`parsesTo_iff_wellFormed`). -/

set_option autoImplicit false

namespace TolerantParser.Mini

/-! ## Spellings -/

/-- A token for an operator of the class: the reserved one with this spelling, or else the text as
an infix operator. -/
def operatorKind (isOperator : Tag → Bool) (op : String) : Kind :=
  match Reserved.ofSpelling? op with
  | some r => if isOperator (.reserved r) then .reserved r else .text .infixOp0 op
  | none => .text .infixOp0 op

def parenthesised (ks : List Kind) : List Kind :=
  .reserved .lparen :: ks ++ [.reserved .rparen]

def separatedBy (separator : Reserved) : List (List Kind) → List Kind
  | [] => []
  | ks :: parts => ks ++ parts.flatMap (.reserved separator :: ·)

namespace Tree

mutual

def spelling : Tree → List Kind
  | int s => [.text .int s]
  | var s => [.text .lowerIdent s]
  | constr s => [.text .upperIdent s]
  | unary op e => parenthesised (operatorKind isUnaryOp op :: spelling e)
  | binary op a b =>
    parenthesised
      (spelling a ++ operatorKind (fun t => (binaryLevels? t).isSome) op :: spelling b)
  | postfixed e ops => parenthesised (spelling e ++ ops.map (.text .postfixOp ·))
  | call f args => .text .lowerIdent f :: parenthesised (separatedBy .comma (spellEach args))
  | labeled l _ none => [.reserved .tilde, .text .lowerIdent l]
  | labeled l false (some e) =>
    .reserved .tilde :: .text .lowerIdent l :: .reserved .equal :: spelling e
  | labeled l true (some e) =>
    .reserved .tilde :: .text .lowerIdent l :: .reserved .equal :: .reserved .question
      :: spelling e
  | letItem n e => .reserved .kwLet :: .text .lowerIdent n :: .reserved .equal :: spelling e
  | valItem n t => .reserved .kwLet :: .text .lowerIdent n :: .reserved .colon :: spelling t
  | openItem m => [.reserved .kwOpen, .text .upperIdent m]
  | documented doc i => .text .docString doc :: spelling i
  | typeCon n => [.text .lowerIdent n]
  | typeApp arg con => spelling arg ++ [.text .lowerIdent con]
  | implementation items => separatedBy .semi (spellEach items)
  | signature items => separatedBy .semi (spellEach items)
  | phrases items => separatedBy .semi (spellEach items)

def spellEach : List Tree → List (List Kind)
  | [] => []
  | t :: ts => spelling t :: spellEach ts

end

end Tree

section Operators
variable (isOperator : Tag → Bool) (op : String)

@[simp] theorem wording_operatorKind : (operatorKind isOperator op).wording = op := by
  unfold operatorKind
  split
  · next r spelled =>
    split
    · exact Reserved.spelling_of_ofSpelling? op r spelled
    · rfl
  · rfl

end Operators

theorem prefixText?_operatorKind
    (op : String)
    (isUnary : op ∈ ["-", "-.", "+", "+.", "!"]) :
    prefixText? (operatorKind isUnaryOp op) = some op := by
  revert op
  decide

theorem isSome_binaryLevels?_operatorKind
    (op : String) :
    (binaryLevels? (operatorKind (fun t => (binaryLevels? t).isSome) op).tag).isSome = true := by
  unfold operatorKind
  split
  · split
    · next isBinary => exact isBinary
    · rfl
  · rfl

/-! ## Tokens with the kinds of a spelling -/

/-- The tokens derive the phrase of the category, as an atom if it is an expression. -/
def Category.Derives (goal : Goal) : Category → Tree → List Token → Prop
  | .expr, v, us => Yields (.expr .atom v) us
  | .arg, v, us => Yields (.arg v) us
  | .type, v, us => TypeYields v us
  | .item, v, us => ItemYields goal v us

theorem exists_of_parenthesised
    (us : List Token)
    (ks : List Kind)
    (spelled : us.map (·.kind) = parenthesised ks) :
    ∃ l vs r, us = l :: vs ++ [r] ∧ l.tag = .reserved .lparen ∧ vs.map (·.kind) = ks
      ∧ r.tag = .reserved .rparen := by
  obtain ⟨l, us, rfl, opens, spelled⟩ := List.map_eq_cons_iff.mp spelled
  obtain ⟨vs, us, rfl, inner, spelled⟩ := List.map_eq_append_iff.mp spelled
  obtain ⟨r, rfl, closes⟩ := List.map_eq_singleton_iff.mp spelled
  exact ⟨l, vs, r, rfl, tag_of_kind l _ opens, inner, tag_of_kind r _ closes⟩

theorem exists_of_binder
    (us : List Token)
    (r r' : Reserved)
    (name : String)
    (ks : List Kind)
    (spelled : us.map (·.kind) = .reserved r :: .text .lowerIdent name :: .reserved r' :: ks) :
    ∃ t label sign vs, us = t :: label :: sign :: vs ∧ t.tag = .reserved r
      ∧ label.kind = .text .lowerIdent name ∧ sign.tag = .reserved r' ∧ vs.map (·.kind) = ks := by
  obtain ⟨t, us, rfl, first, spelled⟩ := List.map_eq_cons_iff.mp spelled
  obtain ⟨label, us, rfl, names, spelled⟩ := List.map_eq_cons_iff.mp spelled
  obtain ⟨sign, us, rfl, second, spelled⟩ := List.map_eq_cons_iff.mp spelled
  exact ⟨t, label, sign, us, rfl, tag_of_kind t _ first, names, tag_of_kind sign _ second, spelled⟩

/-- What holds of the first tree and goes on over each separator holds of separated trees. -/
theorem separatedBy_induction
    (separator : Reserved)
    (P : List Tree → List Token → Prop)
    (ts : List Tree)
    (us : List Token)
    (empty : P [] [])
    (first : ∀ t ∈ ts, ∀ vs : List Token, vs.map (·.kind) = t.spelling → P [t] vs)
    (next : ∀ done ws s, ∀ t ∈ ts, ∀ vs : List Token, P done ws → done ≠ [] →
      s.tag = .reserved separator → vs.map (·.kind) = t.spelling →
      P (done ++ [t]) (ws ++ s :: vs))
    (spelled : us.map (·.kind) = separatedBy separator (Tree.spellEach ts)) :
    P ts us := by
  have rest : ∀ more, (∀ t ∈ more, t ∈ ts) → ∀ done ws vs, P done ws → done ≠ [] →
      vs.map (·.kind) = (Tree.spellEach more).flatMap (.reserved separator :: ·) →
      P (done ++ more) (ws ++ vs) := by
    intro more members
    induction more with
    | nil =>
      intro done ws vs holds _ spelled
      obtain rfl := List.map_eq_nil_iff.mp spelled
      simpa using holds
    | cons t more ih =>
      intro done ws vs holds nonempty spelled
      obtain ⟨s, vs, rfl, parts, spelled⟩ := List.map_eq_cons_iff.mp spelled
      obtain ⟨vs, later, rfl, inner, spelled⟩ := List.map_eq_append_iff.mp spelled
      have extended := next done ws s t (members t List.mem_cons_self) vs holds nonempty
        (tag_of_kind s _ parts) inner
      simpa using ih (fun u member => members u (List.mem_cons_of_mem t member)) _ _ later extended
        (by simp) spelled
  cases ts with
  | nil =>
    obtain rfl := List.map_eq_nil_iff.mp spelled
    exact empty
  | cons t ts =>
    obtain ⟨vs, later, rfl, inner, spelled⟩ := List.map_eq_append_iff.mp spelled
    exact rest ts (fun u member => List.mem_cons_of_mem t member) [t] vs later
      (first t List.mem_cons_self vs inner) (List.cons_ne_nil t []) spelled

theorem Yields.postfixes
    (e : Tree)
    (ops : List String)
    (us vs : List Token)
    (operand : Yields (.expr .e5 e) us)
    (flat : e.isPostfixed = false)
    (nonempty : ops ≠ [])
    (spelled : vs.map (·.kind) = ops.map (.text .postfixOp ·)) :
    Yields (.expr .e5 (.postfixed e ops)) (us ++ vs) := by
  have rest : ∀ more done ws vs, Yields (.expr .e5 (.postfixed e done)) ws →
      vs.map (·.kind) = more.map (.text .postfixOp ·) →
      Yields (.expr .e5 (.postfixed e (done ++ more))) (ws ++ vs) := by
    intro more
    induction more with
    | nil =>
      intro done ws vs yields spelled
      obtain rfl := List.map_eq_nil_iff.mp spelled
      simpa using yields
    | cons op more ih =>
      intro done ws vs yields spelled
      obtain ⟨v, vs, rfl, kind, spelled⟩ := List.map_eq_cons_iff.mp spelled
      have extended := Yields.extended v op e done ws kind yields
      simpa using ih _ _ vs extended spelled
  cases ops with
  | nil => exact absurd rfl nonempty
  | cons op more =>
    obtain ⟨v, vs, rfl, kind, spelled⟩ := List.map_eq_cons_iff.mp spelled
    have one := Yields.postfixed v op e us kind flat operand
    simpa using rest more [op] _ vs one spelled

section Readings
variable (goal : Goal)

theorem Formed.derives
    (c : Category)
    (v : Tree)
    (formed : Formed goal c v)
    (us : List Token)
    (spelled : us.map (·.kind) = v.spelling) :
    c.Derives goal v us := by
  induction formed generalizing us with
  | int digits =>
    obtain ⟨t, rfl, kind⟩ := List.map_eq_singleton_iff.mp spelled
    exact .int t digits kind
  | var name =>
    obtain ⟨t, rfl, kind⟩ := List.map_eq_singleton_iff.mp spelled
    exact .var t name kind
  | constr name =>
    obtain ⟨t, rfl, kind⟩ := List.map_eq_singleton_iff.mp spelled
    exact .constr t name kind
  | unary op e isUnary _ ih =>
    obtain ⟨l, vs, r, rfl, opens, inner, closes⟩ := exists_of_parenthesised us _ spelled
    obtain ⟨t, vs, rfl, kind, inner⟩ := List.map_eq_cons_iff.mp inner
    have operand := (ih vs inner).loosen .atom .e4 e vs (by decide)
    have whole := Yields.unary t op e vs (kind ▸ prefixText?_operatorKind op isUnary) operand
    exact .group l r _ _ opens closes (whole.loosen .e4 .e1 _ _ (by decide))
  | binary op a b _ _ left right =>
    obtain ⟨l, vs, r, rfl, opens, inner, closes⟩ := exists_of_parenthesised us _ spelled
    obtain ⟨vs, ws, rfl, spelledLeft, inner⟩ := List.map_eq_append_iff.mp inner
    obtain ⟨t, ws, rfl, kind, spelledRight⟩ := List.map_eq_cons_iff.mp inner
    have isBinary := isSome_binaryLevels?_operatorKind op
    rw [← tag_of_kind t _ kind] at isBinary
    obtain ⟨p, isBinary⟩ := Option.isSome_iff_exists.mp isBinary
    have named := infixText?_of_binary t.kind p isBinary
    rw [kind, wording_operatorKind, ← kind] at named
    have whole := Yields.binary t p op a b vs ws isBinary named
      ((left vs spelledLeft).loosen .atom _ a vs (Level.le_atom _))
      ((right ws spelledRight).loosen .atom _ b ws (Level.le_atom _))
    exact .group l r _ _ opens closes (whole.loosen _ .e1 _ _ (Level.e1_le _))
  | postfixed e ops _ flat nonempty ih =>
    obtain ⟨l, vs, r, rfl, opens, inner, closes⟩ := exists_of_parenthesised us _ spelled
    obtain ⟨vs, ws, rfl, spelledOperand, spelledOps⟩ := List.map_eq_append_iff.mp inner
    have operand := (ih vs spelledOperand).loosen .atom .e5 e vs (by decide)
    have whole := Yields.postfixes e ops vs ws operand flat nonempty spelledOps
    exact .group l r _ _ opens closes (whole.loosen .e5 .e1 _ _ (by decide))
  | call callee args _ ih =>
    obtain ⟨f, us, rfl, kind, spelled⟩ := List.map_eq_cons_iff.mp spelled
    obtain ⟨l, vs, r, rfl, opens, inner, closes⟩ := exists_of_parenthesised us _ spelled
    have list : Yields (.args args) vs :=
      separatedBy_induction .comma (fun values us => Yields (.args values) us) args vs .noArgs
        (fun a member ws spelled => .firstArg a ws (ih a member ws spelled))
        (fun done ws comma a member vs before nonempty parts spelled =>
          .nextArg comma a done ws vs parts nonempty before (ih a member vs spelled)) inner
    exact .call f l r callee args vs kind opens closes list
  | plain e _ ih => exact .plain e us ((ih us spelled).loosen .atom .e1 e us (by decide))
  | punned label =>
    obtain ⟨tilde, us, rfl, marks, spelled⟩ := List.map_eq_cons_iff.mp spelled
    obtain ⟨name, rfl, names⟩ := List.map_eq_singleton_iff.mp spelled
    exact .punned tilde name label (tag_of_kind tilde _ marks) names
  | labeled label isOptional e _ ih =>
    cases isOptional with
    | false =>
      obtain ⟨tilde, name, equal, us, rfl, marks, names, binds, inner⟩ :=
        exists_of_binder us _ _ label _ spelled
      exact .labeled tilde name equal label e us marks names binds
        ((ih us inner).loosen .atom .e1 e us (by decide))
    | true =>
      obtain ⟨tilde, name, equal, us, rfl, marks, names, binds, inner⟩ :=
        exists_of_binder us _ _ label _ spelled
      obtain ⟨question, us, rfl, omits, inner⟩ := List.map_eq_cons_iff.mp inner
      exact .optional tilde name equal question label e us marks names binds
        (tag_of_kind question _ omits) ((ih us inner).loosen .atom .e1 e us (by decide))
  | typeCon name =>
    obtain ⟨t, rfl, kind⟩ := List.map_eq_singleton_iff.mp spelled
    exact .name t .lowerIdent name kind (.inl rfl)
  | typeApp ty con _ ih =>
    obtain ⟨us, vs, rfl, inner, spelled⟩ := List.map_eq_append_iff.mp spelled
    obtain ⟨t, rfl, kind⟩ := List.map_eq_singleton_iff.mp spelled
    exact .application t con ty us (ih us inner) kind
  | documented doc i _ ih =>
    obtain ⟨t, us, rfl, kind, spelled⟩ := List.map_eq_cons_iff.mp spelled
    exact .documented t doc i us kind (ih us spelled)
  | openItem name =>
    obtain ⟨kwOpen, us, rfl, opens, spelled⟩ := List.map_eq_cons_iff.mp spelled
    obtain ⟨label, rfl, names⟩ := List.map_eq_singleton_iff.mp spelled
    exact .opened kwOpen label name (tag_of_kind kwOpen _ opens) names
  | exprItem e values _ ih =>
    exact .expr e us values ((ih us spelled).loosen .atom .e1 e us (by decide))
  | letItem name e values _ ih =>
    obtain ⟨kwLet, label, equal, us, rfl, lets, names, binds, inner⟩ :=
      exists_of_binder us _ _ name _ spelled
    exact .bound kwLet label equal name e us values lets names binds
      ((ih us inner).loosen .atom .e1 e us (by decide))
  | valItem name ty types _ ih =>
    obtain ⟨kwLet, label, colon, us, rfl, lets, names, declares, inner⟩ :=
      exists_of_binder us _ _ name _ spelled
    exact .declared kwLet label colon name ty us types lets names declares (ih us inner)

theorem exists_fileYields_of_spelling
    (is : List Tree)
    (formed : ∀ i ∈ is, Formed goal .item i)
    (us : List Token)
    (spelled : us.map (·.kind) = separatedBy .semi (Tree.spellEach is)) :
    ∃ isOpen, FileYields goal is isOpen us := by
  refine separatedBy_induction .semi (fun is us => ∃ isOpen, FileYields goal is isOpen us) is us
    ⟨true, .empty⟩ ?_ ?_ spelled
  · intro i member vs spelled
    exact ⟨false, .item [] i [] vs .empty ((formed i member).derives goal .item i vs spelled)⟩
  · rintro done ws semi i member vs ⟨isOpen, before⟩ _ parts spelled
    have whole : FileYields goal (done ++ [i]) false (ws ++ [semi] ++ vs) :=
      .item done i _ vs (.separator semi done isOpen ws before parts)
        ((formed i member).derives goal .item i vs spelled)
    exact ⟨false, by simpa using whole⟩

end Readings

/-! ## What parses come to -/

theorem parsesTo_of_run
    (goal : Goal)
    (o : Offset)
    (ts : List Token)
    (v : Tree)
    (run : automaton.run ⟨goal, startStack goal, none⟩ ts = some (.accepted v)) :
    ParsesTo goal o ts v := by
  have fed := (driver .empty).offerMany_of_run (initialState goal) ts v run
  refine ⟨⟨v, .empty⟩, ?_, rfl⟩
  rw [Driver.parse_eq_ok_iff]
  refine ⟨initialState goal, initial_driver .empty goal o, ?_⟩
  rw [Driver.parseFrom_eq_ok_iff, fed]
  rfl

theorem WellFormed.run_of_spelling
    (goal : Goal)
    (v : Tree)
    (formed : WellFormed goal v)
    (ts : List Token)
    (e : Token)
    (ends : e.tag = .eof)
    (spelled : ts.map (·.kind) = v.spelling) :
    automaton.run ⟨goal, startStack goal, none⟩ (ts ++ [e]) = some (.accepted v) := by
  cases goal with
  | expression =>
    have yields : Yields (.expr .atom v) ts := Formed.derives .expression .expr v formed ts spelled
    exact run_of_yields ts e v ends (yields.loosen .atom .e1 v ts (by decide))
  | coreType =>
    have yields : TypeYields v ts := Formed.derives .coreType .type v formed ts spelled
    have accept : nextAction .coreType e.tag (Stack.marks [.type v]) = .accept := by
      rw [ends]
      rfl
    have read := run_of_typeYields .coreType [] v ts e [] (.coreType rfl) yields
    rw [Automaton.run_singleton, offerSettled_eq] at read
    exact read.trans (congrArg some (settled_of_accept .coreType [.type v] e v accept rfl))
  | toplevelPhrase =>
    have yields : ItemYields .toplevelPhrase v ts :=
      Formed.derives .toplevelPhrase .item v formed ts spelled
    exact (run_toplevelPhrase_iff ts e ends v).mpr yields
  | implementation | interface | useFile =>
    obtain ⟨is, rfl, formed⟩ := formed
    have items := (exists_fileYields_iff _ is ts).mp
      (exists_fileYields_of_spelling _ is formed ts spelled)
    exact (run_file_iff ts e ends _ rfl _).mpr ⟨is, items, rfl⟩

/-- The trees that parses without heuristics come to are exactly the well-formed ones, and a
well-formed tree is what its spelling parses to, whatever the places of the tokens. -/
theorem parsesTo_iff_wellFormed
    (goal : Goal)
    (o : Offset)
    (v : Tree) :
    ((∃ ts, ParsesTo goal o ts v) ↔ WellFormed goal v)
      ∧ (WellFormed goal v → ∀ ts span, ts.map (·.kind) = v.spelling →
          ParsesTo goal o (ts ++ [⟨.eof, span⟩]) v) := by
  have spelled : WellFormed goal v → ∀ ts span, ts.map (·.kind) = v.spelling →
      ParsesTo goal o (ts ++ [⟨.eof, span⟩]) v := by
    intro formed ts span kinds
    exact parsesTo_of_run goal o _ v (formed.run_of_spelling goal v ts ⟨.eof, span⟩ rfl kinds)
  refine ⟨⟨?_, ?_⟩, spelled⟩
  · rintro ⟨ts, parses⟩
    exact wellFormed_of_parsesTo goal o ts v parses
  · intro formed
    have kinds : (v.spelling.map fun k => Token.mk k (.point o)).map (·.kind) = v.spelling := by
      rw [List.map_map]
      exact List.map_id _
    exact ⟨_, spelled formed _ (.point o) kinds⟩

/-- A file with every operator in parentheses, and a run of postfix operators around another one,
which nothing parses to. -/
theorem parsesTo_spelling_at_operators :
    let v : Tree := .implementation
      [.documented "d" (.letItem "x" (.postfixed (.unary "-" (.var "y")) ["^", "!"])),
        .call "f" [.labeled "l" true (some (.binary "=-" (.int "1") (.constr "C"))),
          .labeled "m" false none]]
    let eof : Token := ⟨.eof, .point .zero⟩
    ParsesTo .implementation .zero ((v.spelling.map fun k => ⟨k, .point .zero⟩) ++ [eof]) v
      ∧ ¬ ∃ ts, ParsesTo .expression .zero ts (.postfixed (.postfixed (.var "x") ["^"]) ["^"]) := by
  intro v eof
  have formed : WellFormed .implementation v := by
    refine ⟨_, rfl, ?_⟩
    simp only [List.mem_cons, List.not_mem_nil, or_false, forall_eq_or_imp, forall_eq]
    constructor
    · refine .documented "d" _ (.letItem "x" _ nofun (.postfixed _ _ ?_ rfl nofun))
      exact .unary "-" _ (by decide) (.var "y")
    · refine .exprItem _ nofun (.call "f" _ ?_)
      simp only [List.mem_cons, List.not_mem_nil, or_false, forall_eq_or_imp, forall_eq]
      exact ⟨.labeled "l" true _ (.binary "=-" _ _ (.int "1") (.constr "C")), .punned "m"⟩
  refine ⟨(parsesTo_iff_wellFormed .implementation .zero v).2 formed _ _ rfl, ?_⟩
  rw [(parsesTo_iff_wellFormed .expression .zero _).1]
  intro nested
  cases nested with
  | postfixed _ _ _ flat _ => cases flat

end TolerantParser.Mini
