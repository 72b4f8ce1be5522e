import TolerantParser.Proofs.Mini.Expression.Operands
import TolerantParser.Proofs.Mini.Items.Grammar

/-! # The grammar as it is documented

    items ::= (item (';' item)*)? ';'?
    item  ::= DOC item | 'let' LIDENT '=' expr | 'let' LIDENT ':' type | 'open' UIDENT | expr
    expr  ::= expr binop expr | prefix expr | expr POSTFIX
            | INT | LIDENT | UIDENT | '(' expr ')' | LIDENT '(' args ')'
    args  ::= (arg (',' arg)*)?
    arg   ::= expr | '~' LIDENT | '~' LIDENT '=' '?'? expr
    type  ::= LIDENT | UIDENT | type LIDENT
    binop ::= INFIXOP0 | '=' | INFIXOP1 | '+' | '-' | '+.' | '-.'
    prefix ::= '-' | '-.' | '+' | '+.' | '!'

Only an interface has the items with a type, and it has neither values nor expressions for items.
`Derives` is this grammar as it stands, which is ambiguous: the precedence of the operators decides
about trees, not about what can be derived.  So for every nonterminal but `items` it derives what
the grammar by levels yields (`derives_iff_means`), and `items` are phrases none of which is missing
(`derives_items_iff`). -/

set_option autoImplicit false

namespace TolerantParser.Mini

inductive Nonterminal
  | items
  /-- items with separators between them -/
  | itemList
  | item
  | expr
  | args
  /-- arguments with commas between them -/
  | argList
  | arg
  | type
deriving DecidableEq

def binaryOperators : List Tag :=
  [.text .infixOp0, .reserved .equal, .text .infixOp1, .reserved .plus, .reserved .minus,
    .reserved .plusDot, .reserved .minusDot]

def unaryOperators : List Tag :=
  [.reserved .minus, .reserved .minusDot, .reserved .plus, .reserved .plusDot, .reserved .bang]

inductive Derives (goal : Goal) : Nonterminal → List Token → Prop
  | noItems : Derives goal .items []
  | separator (semi : Token)
      (parts : semi.tag = .reserved .semi) :
      Derives goal .items [semi]
  | listed (us : List Token)
      (list : Derives goal .itemList us) :
      Derives goal .items us
  | closed (semi : Token) (us : List Token)
      (list : Derives goal .itemList us)
      (parts : semi.tag = .reserved .semi) :
      Derives goal .items (us ++ [semi])
  | firstItem (us : List Token)
      (first : Derives goal .item us) :
      Derives goal .itemList us
  | nextItem (semi : Token) (us vs : List Token)
      (first : Derives goal .item us)
      (parts : semi.tag = .reserved .semi)
      (others : Derives goal .itemList vs) :
      Derives goal .itemList (us ++ semi :: vs)
  | documented (doc : Token) (us : List Token)
      (documents : doc.tag = .text .docString)
      (inner : Derives goal .item us) :
      Derives goal .item (doc :: us)
  | bound (kwLet label equal : Token) (us : List Token)
      (values : goal ≠ .interface)
      (lets : kwLet.tag = .reserved .kwLet)
      (names : label.tag = .text .lowerIdent)
      (binds : equal.tag = .reserved .equal)
      (inner : Derives goal .expr us) :
      Derives goal .item (kwLet :: label :: equal :: us)
  | declared (kwLet label colon : Token) (us : List Token)
      (types : goal = .interface)
      (lets : kwLet.tag = .reserved .kwLet)
      (names : label.tag = .text .lowerIdent)
      (declares : colon.tag = .reserved .colon)
      (inner : Derives goal .type us) :
      Derives goal .item (kwLet :: label :: colon :: us)
  | opened (kwOpen label : Token)
      (opens : kwOpen.tag = .reserved .kwOpen)
      (names : label.tag = .text .upperIdent) :
      Derives goal .item [kwOpen, label]
  | evaluated (us : List Token)
      (values : goal ≠ .interface)
      (inner : Derives goal .expr us) :
      Derives goal .item us
  | binary (op : Token) (us vs : List Token)
      (left : Derives goal .expr us)
      (isBinary : op.tag ∈ binaryOperators)
      (right : Derives goal .expr vs) :
      Derives goal .expr (us ++ op :: vs)
  | unary (op : Token) (us : List Token)
      (isUnary : op.tag ∈ unaryOperators)
      (operand : Derives goal .expr us) :
      Derives goal .expr (op :: us)
  | postfixed (op : Token) (us : List Token)
      (operand : Derives goal .expr us)
      (isPostfix : op.tag = .text .postfixOp) :
      Derives goal .expr (us ++ [op])
  | atom (t : Token)
      (isAtom : t.tag ∈ [.text .int, .text .lowerIdent, .text .upperIdent]) :
      Derives goal .expr [t]
  | group (l r : Token) (us : List Token)
      (opens : l.tag = .reserved .lparen)
      (inner : Derives goal .expr us)
      (closes : r.tag = .reserved .rparen) :
      Derives goal .expr (l :: us ++ [r])
  | call (f l r : Token) (us : List Token)
      (callee : f.tag = .text .lowerIdent)
      (opens : l.tag = .reserved .lparen)
      (inner : Derives goal .args us)
      (closes : r.tag = .reserved .rparen) :
      Derives goal .expr (f :: l :: us ++ [r])
  | noArgs : Derives goal .args []
  | someArgs (us : List Token)
      (list : Derives goal .argList us) :
      Derives goal .args us
  | firstArg (us : List Token)
      (first : Derives goal .arg us) :
      Derives goal .argList us
  | nextArg (comma : Token) (us vs : List Token)
      (before : Derives goal .argList us)
      (parts : comma.tag = .reserved .comma)
      (last : Derives goal .arg vs) :
      Derives goal .argList (us ++ comma :: vs)
  | plain (us : List Token)
      (inner : Derives goal .expr us) :
      Derives goal .arg us
  | punned (tilde label : Token)
      (marks : tilde.tag = .reserved .tilde)
      (names : label.tag = .text .lowerIdent) :
      Derives goal .arg [tilde, label]
  | labeled (tilde label equal : Token) (us : List Token)
      (marks : tilde.tag = .reserved .tilde)
      (names : label.tag = .text .lowerIdent)
      (binds : equal.tag = .reserved .equal)
      (inner : Derives goal .expr us) :
      Derives goal .arg (tilde :: label :: equal :: us)
  | optional (tilde label equal question : Token) (us : List Token)
      (marks : tilde.tag = .reserved .tilde)
      (names : label.tag = .text .lowerIdent)
      (binds : equal.tag = .reserved .equal)
      (omits : question.tag = .reserved .question)
      (inner : Derives goal .expr us) :
      Derives goal .arg (tilde :: label :: equal :: question :: us)
  | name (t : Token)
      (isName : t.tag ∈ [.text .lowerIdent, .text .upperIdent]) :
      Derives goal .type [t]
  | application (t : Token) (us : List Token)
      (inner : Derives goal .type us)
      (names : t.tag = .text .lowerIdent) :
      Derives goal .type (us ++ [t])

theorem mem_binaryOperators
    (t : Tag) :
    t ∈ binaryOperators ↔ ∃ p, binaryLevels? t = some p := by
  have all : ∀ t ∈ Tag.all, t ∈ binaryOperators ↔ (binaryLevels? t).isSome = true := by decide
  rw [all t t.mem_all, Option.isSome_iff_exists]

theorem mem_unaryOperators
    (k : Kind) :
    k.tag ∈ unaryOperators ↔ ∃ text, prefixText? k = some text := by
  cases k with
  | text c s => simp [unaryOperators, prefixText?]
  | reserved r => cases r <;> simp [unaryOperators, prefixText?]
  | eof => simp [unaryOperators, prefixText?]

/-! ## What is derived has its meaning -/

/-- No item is missing: but for a lone separator, something stands before every separator. -/
def NoneMissing (ts : List Token) : Prop :=
  (∃ semi, ts = [semi] ∧ semi.tag = .reserved .semi) ∨ ∀ g ∈ (stretches ts).dropLast, g ≠ []

section Meaning
variable (goal : Goal)

def Nonterminal.Means : Nonterminal → List Token → Prop
  | .items, ts => (∀ phrase ∈ phrases ts, ∃ i, ItemYields goal i phrase) ∧ NoneMissing ts
  | .itemList, ts => ∀ stretch ∈ stretches ts, ∃ i, ItemYields goal i stretch
  | .item, ts => ∃ i, ItemYields goal i ts
  | .expr, ts => Operand .e1 ts
  | .args, ts => ∃ vs, Yields (.args vs) ts
  | .argList, ts => ∃ vs, vs ≠ [] ∧ Yields (.args vs) ts
  | .arg, ts => ∃ v, Yields (.arg v) ts
  | .type, ts => ∃ ty, TypeYields ty ts

theorem Operand.of_atom
    (v : Tree)
    (us : List Token)
    (yields : Yields (.expr .atom v) us) :
    Operand .e1 us :=
  (Operand.iff_exists_yields us).mpr ⟨v, yields.loosen .atom .e1 v us (Level.e1_le .atom)⟩

theorem Operand.of_isAtom
    (t : Token)
    (isAtom : t.tag ∈ [.text .int, .text .lowerIdent, .text .upperIdent]) :
    Operand .e1 [t] := by
  simp only [List.mem_cons, List.not_mem_nil, or_false] at isAtom
  rcases isAtom with isInt | isLower | isUpper
  · obtain ⟨digits, kind⟩ := exists_kind_of_tag t _ isInt
    exact .of_atom _ _ (.int t digits kind)
  · obtain ⟨name, kind⟩ := exists_kind_of_tag t _ isLower
    exact .of_atom _ _ (.var t name kind)
  · obtain ⟨name, kind⟩ := exists_kind_of_tag t _ isUpper
    exact .of_atom _ _ (.constr t name kind)

theorem exists_typeYields_of_isName
    (t : Token)
    (isName : t.tag ∈ [.text .lowerIdent, .text .upperIdent]) :
    ∃ ty, TypeYields ty [t] := by
  simp only [List.mem_cons, List.not_mem_nil, or_false] at isName
  rcases isName with isLower | isUpper
  · obtain ⟨name, kind⟩ := exists_kind_of_tag t _ isLower
    exact ⟨_, .name t _ name kind (.inl rfl)⟩
  · obtain ⟨name, kind⟩ := exists_kind_of_tag t _ isUpper
    exact ⟨_, .name t _ name kind (.inr rfl)⟩

theorem noneMissing_of_items
    (ts : List Token)
    (items : ∀ stretch ∈ stretches ts, ∃ i, ItemYields goal i stretch) :
    ∀ stretch ∈ stretches ts, stretch ≠ [] := by
  intro stretch isStretch
  obtain ⟨i, yields⟩ := items stretch isStretch
  exact yields.ne_nil goal i stretch

theorem Derives.means
    (n : Nonterminal)
    (ts : List Token)
    (derives : Derives goal n ts) :
    n.Means goal ts := by
  induction derives with
  | noItems => exact ⟨nofun, .inr nofun⟩
  | separator semi parts =>
    have noPhrase : phrases [semi] = [] := phrases_append [] [] semi parts
    exact ⟨by simp [noPhrase], .inl ⟨semi, rfl, parts⟩⟩
  | listed us _ ih =>
    refine ⟨fun phrase isPhrase => ih phrase ((mem_phrases us phrase).mp isPhrase).1, .inr ?_⟩
    exact fun g member => noneMissing_of_items goal us ih g (List.dropLast_subset _ member)
  | closed semi us _ parts ih =>
    refine ⟨?_, .inr ?_⟩
    · rw [phrases_append us [] semi parts, phrases_nil, List.append_nil]
      exact fun phrase isPhrase => ih phrase ((mem_phrases us phrase).mp isPhrase).1
    · rw [stretches_append us [] semi parts]
      intro g member
      exact noneMissing_of_items goal us ih g (by simpa [stretches] using member)
  | firstItem us _ ih =>
    obtain ⟨i, yields⟩ := ih
    rw [Nonterminal.Means, stretches_of_noSemi us (yields.ne_semi goal i us)]
    exact List.forall_mem_singleton.mpr ⟨i, yields⟩
  | nextItem semi us vs _ parts _ first others =>
    obtain ⟨i, yields⟩ := first
    rw [Nonterminal.Means, stretches_append us vs semi parts,
      stretches_of_noSemi us (yields.ne_semi goal i us)]
    exact List.forall_mem_cons.mpr ⟨⟨i, yields⟩, others⟩
  | documented doc us documents _ ih =>
    obtain ⟨text, kind⟩ := exists_kind_of_tag doc _ documents
    obtain ⟨i, yields⟩ := ih
    exact ⟨_, .documented doc text i us kind yields⟩
  | bound kwLet label equal us values lets names binds _ ih =>
    obtain ⟨name, kind⟩ := exists_kind_of_tag label _ names
    obtain ⟨e, yields⟩ := (Operand.iff_exists_yields us).mp ih
    exact ⟨_, .bound kwLet label equal name e us values lets kind binds yields⟩
  | declared kwLet label colon us types lets names declares _ ih =>
    obtain ⟨name, kind⟩ := exists_kind_of_tag label _ names
    obtain ⟨ty, yields⟩ := ih
    exact ⟨_, .declared kwLet label colon name ty us types lets kind declares yields⟩
  | opened kwOpen label opens names =>
    obtain ⟨name, kind⟩ := exists_kind_of_tag label _ names
    exact ⟨_, .opened kwOpen label name opens kind⟩
  | evaluated us values _ ih =>
    obtain ⟨e, yields⟩ := (Operand.iff_exists_yields us).mp ih
    exact ⟨e, .expr e us values yields⟩
  | binary op us vs _ isBinary _ left right =>
    obtain ⟨p, levels⟩ := (mem_binaryOperators op.tag).mp isBinary
    exact Operand.append_binary op p .e1 us vs levels left right
  | unary op us isUnary _ ih =>
    obtain ⟨text, spelled⟩ := (mem_unaryOperators op.kind).mp isUnary
    exact Operand.unary_of op text .e1 .e1 us spelled ih (Level.le_refl _) (Level.e1_le .e4)
  | postfixed op us _ isPostfix ih =>
    obtain ⟨text, kind⟩ := exists_kind_of_tag op _ isPostfix
    exact Operand.append_postfix op text .e1 us kind ih
  | atom t isAtom => exact .of_isAtom t isAtom
  | group l r us opens _ closes ih =>
    obtain ⟨v, yields⟩ := (Operand.iff_exists_yields us).mp ih
    exact .of_atom _ _ (.group l r v us opens closes yields)
  | call f l r us callee opens _ closes ih =>
    obtain ⟨name, kind⟩ := exists_kind_of_tag f _ callee
    obtain ⟨values, yields⟩ := ih
    exact .of_atom _ _ (.call f l r name values us kind opens closes yields)
  | noArgs => exact ⟨[], .noArgs⟩
  | someArgs us _ ih =>
    obtain ⟨values, _, yields⟩ := ih
    exact ⟨values, yields⟩
  | firstArg us _ ih =>
    obtain ⟨v, yields⟩ := ih
    exact ⟨[v], nofun, .firstArg v us yields⟩
  | nextArg comma us vs _ parts _ before last =>
    obtain ⟨values, nonempty, yields⟩ := before
    obtain ⟨v, lastYields⟩ := last
    exact ⟨values ++ [v], by simp, .nextArg comma v values us vs parts nonempty yields lastYields⟩
  | plain us _ ih =>
    obtain ⟨v, yields⟩ := (Operand.iff_exists_yields us).mp ih
    exact ⟨v, .plain v us yields⟩
  | punned tilde label marks names =>
    obtain ⟨name, kind⟩ := exists_kind_of_tag label _ names
    exact ⟨_, .punned tilde label name marks kind⟩
  | labeled tilde label equal us marks names binds _ ih =>
    obtain ⟨name, kind⟩ := exists_kind_of_tag label _ names
    obtain ⟨v, yields⟩ := (Operand.iff_exists_yields us).mp ih
    exact ⟨_, .labeled tilde label equal name v us marks kind binds yields⟩
  | optional tilde label equal question us marks names binds omits _ ih =>
    obtain ⟨name, kind⟩ := exists_kind_of_tag label _ names
    obtain ⟨v, yields⟩ := (Operand.iff_exists_yields us).mp ih
    exact ⟨_, .optional tilde label equal question name v us marks kind binds omits yields⟩
  | name t isName => exact exists_typeYields_of_isName t isName
  | application t us _ names ih =>
    obtain ⟨name, kind⟩ := exists_kind_of_tag t _ names
    obtain ⟨arg, yields⟩ := ih
    exact ⟨_, .application t name arg us yields kind⟩

/-! ## What has the meaning is derived -/

def Phrase.Derivable : Phrase → List Token → Prop
  | .expr _ _, ts => Derives goal .expr ts
  | .arg _, ts => Derives goal .arg ts
  | .args values, ts => Derives goal .args ts ∧ (values ≠ [] → Derives goal .argList ts)

theorem Yields.derivable
    (p : Phrase)
    (us : List Token)
    (yields : Yields p us) :
    p.Derivable goal us := by
  induction yields with
  | next k l v us tighter _ ih => exact ih
  | binary op p text a b us vs isBinary _ _ _ left right =>
    exact .binary op us vs left ((mem_binaryOperators op.tag).mpr ⟨p, isBinary⟩) right
  | unary op text v us spelled _ ih =>
    exact .unary op us ((mem_unaryOperators op.kind).mpr ⟨text, spelled⟩) ih
  | postfixed op _ _ us kind _ _ ih | extended op _ _ _ us kind _ ih =>
    exact .postfixed op us ih (tag_of_kind op _ kind)
  | int t _ kind | constr t _ kind | var t _ kind => exact .atom t (by simp [tag_of_kind t _ kind])
  | group l r v us opens closes _ ih => exact .group l r us opens ih closes
  | call f l r name values us callee opens closes _ ih =>
    exact .call f l r us (tag_of_kind f _ callee) opens ih.1 closes
  | noArgs => exact ⟨.noArgs, fun nonempty => absurd rfl nonempty⟩
  | firstArg v us _ ih => exact ⟨.someArgs us (.firstArg us ih), fun _ => .firstArg us ih⟩
  | nextArg comma v values us vs parts nonempty _ _ before last =>
    have list := Derives.nextArg comma us vs (before.2 nonempty) parts last
    exact ⟨.someArgs _ list, fun _ => list⟩
  | plain v us _ ih => exact .plain us ih
  | punned tilde label name marks names =>
    exact .punned tilde label marks (tag_of_kind label _ names)
  | labeled tilde label equal name v us marks names binds _ ih =>
    exact .labeled tilde label equal us marks (tag_of_kind label _ names) binds ih
  | optional tilde label equal question name v us marks names binds omits _ ih =>
    exact .optional tilde label equal question us marks (tag_of_kind label _ names) binds omits ih

theorem TypeYields.derives
    (ty : Tree)
    (us : List Token)
    (yields : TypeYields ty us) :
    Derives goal .type us := by
  induction yields with
  | name t c name names isName =>
    have isName := tag_of_name t c name names isName
    exact .name t (by simpa using isName)
  | application t name arg us _ names ih => exact .application t us ih (tag_of_kind t _ names)

theorem ItemYields.derives
    (i : Tree)
    (us : List Token)
    (yields : ItemYields goal i us) :
    Derives goal .item us := by
  induction yields with
  | documented doc text i us documents _ ih =>
    exact .documented doc us (tag_of_kind doc _ documents) ih
  | opened kwOpen label name opens names =>
    exact .opened kwOpen label opens (tag_of_kind label _ names)
  | bound kwLet label equal name e us values lets names binds inner =>
    exact .bound kwLet label equal us values lets (tag_of_kind label _ names) binds
      (inner.derivable goal)
  | expr e us values inner => exact .evaluated us values (inner.derivable goal)
  | declared kwLet label colon name ty us types lets names declares inner =>
    exact .declared kwLet label colon us types lets (tag_of_kind label _ names) declares
      (inner.derives goal)

theorem derives_itemList_of_items
    (ts : List Token)
    (items : ∀ stretch ∈ stretches ts, Derives goal .item stretch) :
    Derives goal .itemList ts := by
  induction ts using stretches_induction with
  | single ts noSemi =>
    rw [stretches_of_noSemi ts noSemi] at items
    exact .firstItem ts (items ts (List.mem_singleton_self ts))
  | cut us semi vs noSemi parts ih =>
    rw [stretches_append us vs semi parts, stretches_of_noSemi us noSemi] at items
    obtain ⟨first, others⟩ := List.forall_mem_cons.mp items
    exact .nextItem semi us vs first parts (ih others)

theorem derives_items_of_phrases
    (ts : List Token)
    (items : ∀ phrase ∈ phrases ts, Derives goal .item phrase)
    (noneMissing : NoneMissing ts) :
    Derives goal .items ts := by
  rcases noneMissing with ⟨semi, rfl, parts⟩ | nonempty
  · exact .separator semi parts
  · rcases List.eq_nil_or_concat' ts with rfl | ⟨us, t, rfl⟩
    · exact .noItems
    · -- only a separator at the end leaves the last stretch empty
      by_cases parts : t.tag = .reserved .semi
      · rw [stretches_append us [] t parts] at nonempty
        rw [phrases_append us [] t parts, phrases_nil, List.append_nil] at items
        refine .closed t us (derives_itemList_of_items goal us fun stretch isStretch => ?_) parts
        have filled := nonempty stretch (by simpa [stretches] using isStretch)
        exact items stretch ((mem_phrases us stretch).mpr ⟨isStretch, filled⟩)
      · obtain ⟨others, last, _, split⟩ := exists_stretches_concat us t parts
        refine .listed _ (derives_itemList_of_items goal _ fun stretch isStretch => ?_)
        refine items stretch ((mem_phrases _ stretch).mpr ⟨isStretch, ?_⟩)
        rw [split] at nonempty isStretch
        rcases List.mem_append.mp isStretch with before | isLast
        · exact nonempty stretch (by simpa using before)
        · rw [List.mem_singleton.mp isLast]
          simp

/-- The documented grammar and the grammar by levels have the same words. -/
theorem derives_iff_means
    (n : Nonterminal)
    (ts : List Token) :
    Derives goal n ts ↔ n.Means goal ts := by
  refine ⟨Derives.means goal n ts, fun means => ?_⟩
  cases n with
  | items =>
    refine derives_items_of_phrases goal ts (fun phrase isPhrase => ?_) means.2
    obtain ⟨i, yields⟩ := means.1 phrase isPhrase
    exact yields.derives goal i phrase
  | itemList =>
    refine derives_itemList_of_items goal ts fun stretch isStretch => ?_
    obtain ⟨i, yields⟩ := means stretch isStretch
    exact yields.derives goal i stretch
  | item =>
    obtain ⟨i, yields⟩ := means
    exact yields.derives goal i ts
  | expr =>
    obtain ⟨v, yields⟩ := (Operand.iff_exists_yields ts).mp means
    exact yields.derivable goal
  | args =>
    obtain ⟨values, yields⟩ := means
    exact (yields.derivable goal).1
  | argList =>
    obtain ⟨values, nonempty, yields⟩ := means
    exact (yields.derivable goal).2 nonempty
  | arg =>
    obtain ⟨v, yields⟩ := means
    exact yields.derivable goal
  | type =>
    obtain ⟨ty, yields⟩ := means
    exact yields.derives goal

theorem derives_item_iff
    (ts : List Token) :
    Derives goal .item ts ↔ ∃ i, ItemYields goal i ts :=
  derives_iff_means goal .item ts

theorem derives_items_iff
    (ts : List Token) :
    Derives goal .items ts ↔ (∀ phrase ∈ phrases ts, Derives goal .item phrase) ∧ NoneMissing ts := by
  simp only [derives_item_iff]
  exact derives_iff_means goal .items ts

end Meaning

end TolerantParser.Mini
