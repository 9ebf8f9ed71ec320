import AdviceMigration.Proofs.Source.WrittenComments
import AdviceMigration.Source.Parse.Unit

/-!
# Comments in printed text

What the printer writes without captured text is code with comments in between. `Retexts` compares the documents of a tree with and without other texts in its comments: they are the same code, and each comment that is stored in a printed place stands between the same two pieces of code in both, once, in the order of the tree. Rendering gives this code with the lines of the comments in between. So each of these comments is written exactly once, and nothing else that is written comes from a comment.
-/

namespace AdviceMigration.Source

/-- Whether a document becomes another one when the stored comments get other texts: both are the same code with the shown comments in between, one by one. -/
inductive Retexts (texts : CommentTexts) : Doc → Doc → List Stored → Prop
  | code (doc : Doc) : Retexts texts doc doc []
  | shown (comment : Comment) (style : Style) :
    Retexts texts (comment.doc style) ((comment.retext texts).doc style) [⟨comment, true⟩]
  | hidden (comment : Comment) : Retexts texts [] [] [⟨comment, false⟩]
  | append {doc doc' next next' : Doc} {stored more : List Stored} (h : Retexts texts doc doc' stored)
      (hnext : Retexts texts next next' more) :
    Retexts texts (doc ++ next) (doc' ++ next') (stored ++ more)

variable {texts : CommentTexts}

namespace Retexts

variable {doc doc' next next' : Doc} {stored more : List Stored}

theorem andCode (h : Retexts texts doc doc' stored) (code : Doc) :
    Retexts texts (doc ++ code) (doc' ++ code) stored := by
  have happend := h.append (.code code)
  rwa [List.append_nil] at happend

theorem andSame (h : Retexts texts doc doc' stored) (hnext : Retexts texts next next' []) :
    Retexts texts (doc ++ next) (doc' ++ next') stored := by
  have happend := h.append hnext
  rwa [List.append_nil] at happend

theorem andNone (h : Retexts texts doc doc' stored) : Retexts texts doc doc' (stored ++ []) := by
  rwa [List.append_nil]

theorem afterCode (code : Doc) (h : Retexts texts doc doc' stored) :
    Retexts texts (code ++ doc) (code ++ doc') stored := (Retexts.code code).append h

/-- Comments that are not printed change no code. -/
theorem hiddenAll (comments : List Comment) : Retexts texts [] [] (storedAs false comments) := by
  induction comments with
  | nil => exact .code []
  | cons comment rest ih => exact (Retexts.hidden comment).append ih

theorem unshownAll (stored : List Stored) : Retexts texts [] [] (unshown stored) := by
  induction stored with
  | nil => exact .code []
  | cons entry rest ih => exact (Retexts.hidden entry.comment).append ih

theorem andUnshown (h : Retexts texts doc doc' stored) (more : List Stored) :
    Retexts texts doc doc' (stored ++ unshown more) := by
  have happend := h.append (unshownAll more)
  rwa [List.append_nil, List.append_nil] at happend

theorem andHidden (h : Retexts texts doc doc' stored) (comments : List Comment) :
    Retexts texts doc doc' (stored ++ storedAs false comments) := by
  have happend := h.append (hiddenAll comments)
  rwa [List.append_nil, List.append_nil] at happend

theorem afterHidden (comments : List Comment) (h : Retexts texts doc doc' stored) :
    Retexts texts doc doc' (storedAs false comments ++ stored) := (hiddenAll comments).append h

theorem atLeast {strength : Nat} {expr expr' : Expr} (h : Retexts texts doc doc' stored)
    (hprecedence : expr'.precedence = expr.precedence) :
    Retexts texts (Source.atLeast strength expr doc) (Source.atLeast strength expr' doc') stored := by
  unfold Source.atLeast
  rw [hprecedence]
  split
  · exact (h.afterCode _).andCode _
  · exact h

theorem unary (op : UnaryOp) {operand operand' : Expr} (h : Retexts texts doc doc' stored)
    (hprecedence : operand'.precedence = operand.precedence)
    (hblank : needsBlankAfter op operand' = needsBlankAfter op operand) :
    Retexts texts
      (if op.isPostfix then Source.atLeast postfixStrength operand doc ++ txt op.text
        else txt op.text ++ (if needsBlankAfter op operand then txt " " else []) ++
          Source.atLeast unaryStrength operand doc)
      (if op.isPostfix then Source.atLeast postfixStrength operand' doc' ++ txt op.text
        else txt op.text ++ (if needsBlankAfter op operand' then txt " " else []) ++
          Source.atLeast unaryStrength operand' doc') stored := by
  rw [hblank]
  split
  · exact (h.atLeast hprecedence).andCode _
  · exact (h.atLeast hprecedence).afterCode _

theorem labels (isDefault : Bool) (h : Retexts texts doc doc' stored) :
    Retexts texts (if isDefault then txt "default" else txt "case " ++ doc)
      (if isDefault then txt "default" else txt "case " ++ doc')
      (if isDefault then unshown stored else stored) := by
  cases isDefault with
  | true => exact (Retexts.code _).andUnshown stored
  | false => exact h.afterCode _

theorem bracedLines (h : Retexts texts doc doc' stored) (style : Style) :
    Retexts texts (Source.bracedLines doc style) (Source.bracedLines doc' style) stored :=
  ((h.afterCode _).andCode _).andCode _

end Retexts

/-! ### Comments -/

theorem retexts_lineDoc (comment : Comment) (style : Style) :
    Retexts texts (comment.lineDoc style) ((comment.retext texts).lineDoc style) [⟨comment, true⟩] :=
  ((Retexts.shown comment style).afterCode _).andCode _

theorem retexts_listDoc (comments : List Comment) (style : Style) :
    Retexts texts (Comment.listDoc comments style)
      (Comment.listDoc (comments.map (Comment.retext texts)) style) (storedAs true comments) := by
  cases comments with
  | nil => exact .code []
  | cons first rest =>
    refine (retexts_lineDoc first style).append ?_
    rw [List.flatMap_map]
    induction rest with
    | nil => exact .code []
    | cons comment rest ih => exact ((retexts_lineDoc comment style).afterCode _).append ih

theorem retexts_trailingDoc (comment : Option Comment) (style : Style) :
    Retexts texts (Comment.trailingDoc comment style)
      (Comment.trailingDoc (comment.map (Comment.retext texts)) style) (storedAs true comment.toList) := by
  cases comment with
  | none => exact .code []
  | some comment => exact (Retexts.shown comment style).afterCode _

section Canonical

variable {style : Style} (hstyle : style.options.preserve = false)

include hstyle

theorem reuse_eq (verbatim : Option Verbatim) (own : Style → Doc) : reuse verbatim own style = own style := by
  cases verbatim with
  | none => rfl
  | some captured =>
    rw [reuse, hstyle]
    rfl

theorem doc?_eq_none (trivia : Option Trivia) (comments : List Comment) (blank : Bool) :
    Trivia.doc? trivia comments blank style = none := by
  rw [Trivia.doc?, hstyle]
  rfl

theorem retexts_leadingDoc (layout : Layout) :
    Retexts texts (layout.leadingDoc style) ((layout.retext texts).leadingDoc style)
      (storedAs true layout.comments) := by
  rw [Layout.leadingDoc, Layout.leadingDoc, doc?_eq_none hstyle, doc?_eq_none hstyle]
  exact (retexts_listDoc layout.comments style).afterCode _

theorem retexts_closingBrace (closing : Option Trivia) (comments : List Comment) :
    Retexts texts (closingBrace closing comments style)
      (closingBrace closing (comments.map (Comment.retext texts)) style) (storedAs true comments) := by
  rw [closingBrace, closingBrace, doc?_eq_none hstyle, doc?_eq_none hstyle]
  exact ((retexts_listDoc comments style.deeper).andCode _).andCode _

/-- A node on lines of its own with what stands in front of it. -/
theorem retexts_onLines {stored : List Stored} (layout : Layout) {own own' : Style → Doc}
    (hown : Retexts texts (own style) (own' style) stored) :
    Retexts texts (layout.leadingDoc style ++ reuse layout.verbatim own style ++ lineBreak)
      ((layout.retext texts).leadingDoc style ++ reuse layout.verbatim own' style ++ lineBreak)
      (storedAs true layout.comments ++ stored) := by
  rw [reuse_eq hstyle, reuse_eq hstyle]
  exact ((retexts_leadingDoc hstyle layout).append hown).andCode _

theorem retexts_statementLine {stored : List Stored} (layout : Layout) (trailing : Option Comment)
    {kind kind' : Style → Doc} (hkind : Retexts texts (kind style) (kind' style) stored) :
    Retexts texts (statementLine layout trailing kind style)
      (statementLine (layout.retext texts) (trailing.map (Comment.retext texts)) kind' style)
      (storedAs true layout.comments ++ (stored ++ storedAs true trailing.toList)) :=
  retexts_onLines hstyle layout ((hkind.afterCode _).append (retexts_trailingDoc trailing style))

end Canonical

/-! ### What does not depend on comments -/

theorem Expr.precedence_retext (expr : Expr) : (expr.retext texts).precedence = expr.precedence := by
  cases expr with
  | call receiver => cases receiver <;> rfl
  | new outer => cases outer <;> rfl
  | newArray _ _ init => cases init <;> rfl
  | _ => rfl

theorem needsBlankAfter_retext (op : UnaryOp) (operand : Expr) :
    needsBlankAfter op (operand.retext texts) = needsBlankAfter op operand := by
  cases operand with
  | call receiver => cases receiver <;> rfl
  | new outer => cases outer <;> rfl
  | newArray _ _ init => cases init <;> rfl
  | _ => rfl

theorem Stmt.inBraces_retext (stmt : Stmt) : (stmt.retext texts).inBraces = stmt.inBraces := by
  obtain ⟨layout, trailing, kind⟩ := stmt
  have hlayout : (layout.comments.map (Comment.retext texts)).isEmpty = layout.comments.isEmpty :=
    List.isEmpty_map
  cases kind with
  | ret value => cases value <;> exact congrArg not hlayout
  | ifElse _ _ no => cases no <;> exact congrArg not hlayout
  | forLoop _ cond => cases cond <;> exact congrArg not hlayout
  | tryBlock _ _ _ finallyBody => cases finallyBody <;> exact congrArg not hlayout
  | assertion _ message => cases message <;> exact congrArg not hlayout
  | block => rfl
  | _ => exact congrArg not hlayout

theorem retexts_afterBranch (branch : Stmt) (style : Style) :
    Retexts texts (afterBranch branch style) (afterBranch (branch.retext texts) style) [] := by
  rw [afterBranch, afterBranch, branch.inBraces_retext]
  exact .code _

/-! ### Branches -/

theorem StmtKind.isBlock_retext (kind : StmtKind) : (kind.retext texts).isBlock = kind.isBlock := by
  cases kind with
  | ret value => cases value <;> rfl
  | ifElse _ _ no => cases no <;> rfl
  | forLoop _ cond => cases cond <;> rfl
  | tryBlock _ _ _ finallyBody => cases finallyBody <;> rfl
  | assertion _ message => cases message <;> rfl
  | _ => rfl

/-- A branch that is not a block and has no comments in front of it stays on its line. -/
theorem Stmt.branchDoc_onLine {layout : Layout} {kind : StmtKind} (hkind : kind.isBlock = false)
    (hcomments : layout.comments.isEmpty = true) (trailing : Option Comment) (style : Style) :
    Stmt.branchDoc ⟨layout, trailing, kind⟩ style =
      txt " " ++ kind.doc style ++ Comment.trailingDoc trailing style := by
  obtain ⟨comments, blankLineBefore, leading, verbatim⟩ := layout
  obtain rfl := List.isEmpty_iff.mp hcomments
  cases kind with
  | block body => exact Bool.noConfusion hkind
  | _ => rfl

/-- A branch that is not a block but has comments in front of it gets braces and lines of its own. -/
theorem Stmt.branchDoc_onLines {layout : Layout} {kind : StmtKind} (hkind : kind.isBlock = false)
    (hcomments : layout.comments.isEmpty = false) (trailing : Option Comment) (style : Style) :
    Stmt.branchDoc ⟨layout, trailing, kind⟩ style =
      txt " " ++ bracedLines (statementLine layout trailing kind.doc style.deeper) style := by
  obtain ⟨comments, blankLineBefore, leading, verbatim⟩ := layout
  cases comments with
  | nil => exact Bool.noConfusion hcomments
  | cons comment rest =>
    cases kind with
    | block body => exact Bool.noConfusion hkind
    | _ => rfl

/-- The body of an `if` or a loop writes its own comments unless it is a block. -/
theorem Stmt.retexts_branch_of_kind (layout : Layout) (trailing : Option Comment) (kind : StmtKind)
    (hkind : ∀ style : Style, style.options.preserve = false →
      Retexts texts (kind.doc style) ((kind.retext texts).doc style) kind.stored)
    (style : Style) (hstyle : style.options.preserve = false) :
    Retexts texts (Stmt.branchDoc ⟨layout, trailing, kind⟩ style)
      (Stmt.branchDoc ⟨layout.retext texts, trailing.map (Comment.retext texts), kind.retext texts⟩ style)
      (Stmt.storedBranch ⟨layout, trailing, kind⟩) := by
  have hstored : Stmt.storedBranch ⟨layout, trailing, kind⟩ =
    storedAs (!kind.isBlock) layout.comments ++
      (kind.stored ++ storedAs (!kind.isBlock) trailing.toList) := rfl
  have hisEmpty : (layout.retext texts).comments.isEmpty = layout.comments.isEmpty := List.isEmpty_map
  cases hblock : kind.isBlock with
  | true =>
    cases kind with
    | block body =>
      exact (((hkind style hstyle).afterCode _).andHidden trailing.toList).afterHidden layout.comments
    | _ => exact Bool.noConfusion hblock
  | false =>
    have hretext : (kind.retext texts).isBlock = false := kind.isBlock_retext.trans hblock
    rw [hstored, hblock]
    cases hcomments : layout.comments.isEmpty with
    | true =>
      rw [Stmt.branchDoc_onLine hblock hcomments, Stmt.branchDoc_onLine hretext (hisEmpty.trans hcomments),
        List.isEmpty_iff.mp hcomments]
      exact ((hkind style hstyle).afterCode _).append (retexts_trailingDoc trailing style)
    | false =>
      rw [Stmt.branchDoc_onLines hblock hcomments,
        Stmt.branchDoc_onLines hretext (hisEmpty.trans hcomments)]
      have hdeeper : style.deeper.options.preserve = false := hstyle
      exact ((retexts_statementLine hdeeper layout trailing (hkind style.deeper hdeeper)).bracedLines
        style).afterCode _

/-! ### Trees -/

mutual
theorem Expr.retexts : (expr : Expr) → (style : Style) → style.options.preserve = false →
    Retexts texts (expr.doc style) ((expr.retext texts).doc style) expr.stored
  | .name _ name, _, _ => .code (txt name)
  | .literal literal, _, _ => .code (txt literal.text)
  | .field receiver _, style, h => ((receiver.retexts style h).atLeast receiver.precedence_retext).andCode _
  | .call none _ _ args, style, h => ((Expr.retexts_list args style h).afterCode _).andCode _
  | .call (some receiver) _ _ args, style, h =>
    ((((((receiver.retexts style h).atLeast receiver.precedence_retext).andCode _).andCode _).andCode
      _).andCode _).append (Expr.retexts_list args style h) |>.andCode _
  | .index array index, style, h =>
    ((((array.retexts style h).atLeast array.precedence_retext).andCode _).append
      (index.retexts style h)).andCode _
  | .assign target _ value, style, h =>
    (((target.retexts style h).atLeast target.precedence_retext).andCode _).append (value.retexts style h)
  | .binary _ left right, style, h =>
    (((left.retexts style h).atLeast left.precedence_retext).andCode _).append
      ((right.retexts style h).atLeast right.precedence_retext)
  | .unary op operand, style, h =>
    (operand.retexts style h).unary op operand.precedence_retext (needsBlankAfter_retext op operand)
  | .conditional cond yes no, style, h =>
    (((((cond.retexts style h).atLeast cond.precedence_retext).andCode _).append
      (yes.retexts style h)).andCode _).append ((no.retexts style h).atLeast no.precedence_retext)
  | .cast _ operand, style, h => ((operand.retexts style h).atLeast operand.precedence_retext).afterCode _
  | .instanceOf operand _ _, style, h =>
    (((operand.retexts style h).atLeast operand.precedence_retext).andCode _).andCode _
  | .new none _ args body, style, h =>
    (((Expr.retexts_list args style h).afterCode _).andCode _).append (Member.retexts_body body style h)
  | .new (some outer) _ args body, style, h =>
    (((((outer.retexts style h).atLeast outer.precedence_retext).andCode _).andCode _).append
      (Expr.retexts_list args style h)).andCode _ |>.append (Member.retexts_body body style h)
  | .newArray _ dims none, style, h => ((Expr.retexts_dims dims style h).afterCode _).andCode _
  | .newArray _ dims (some items), style, h =>
    ((Expr.retexts_dims dims style h).afterCode _).append
      (((Expr.retexts_list items style h).afterCode _).andCode _)
  | .arrayInit items, style, h => ((Expr.retexts_list items style h).afterCode _).andCode _
  | .lambda _ _ body, style, h => (body.retexts style h).afterCode _
  | .methodRef target _, style, h => ((target.retexts style h).atLeast target.precedence_retext).andCode _
  | .classLiteral type, _, _ => .code (txt (type.text ++ ".class"))
  | .this, _, _ => .code (txt "this")
  | .super, _, _ => .code (txt "super")
  | .paren inner, style, h => ((inner.retexts style h).afterCode _).andCode _
  | .typeName type, _, _ => .code (txt type.text)

theorem Expr.retexts_list : (exprs : List Expr) → (style : Style) → style.options.preserve = false →
    Retexts texts (Expr.listDoc exprs style) (Expr.listDoc (Expr.retextList texts exprs) style)
      (Expr.storedList exprs)
  | [], _, _ => .code []
  | [expr], style, h => (expr.retexts style h).andNone
  | expr :: next :: rest, style, h =>
    ((expr.retexts style h).andCode _).append (Expr.retexts_list (next :: rest) style h)

theorem Expr.retexts_dims : (dims : List (Option Expr)) → (style : Style) →
    style.options.preserve = false →
    Retexts texts (Expr.dimsDoc dims style) (Expr.dimsDoc (Expr.retextDims texts dims) style)
      (Expr.storedDims dims)
  | [], _, _ => .code []
  | none :: rest, style, h => (Expr.retexts_dims rest style h).afterCode _
  | some size :: rest, style, h =>
    (((size.retexts style h).afterCode _).andCode _).append (Expr.retexts_dims rest style h)

theorem LambdaBody.retexts : (body : LambdaBody) → (style : Style) → style.options.preserve = false →
    Retexts texts (body.doc style) ((body.retext texts).doc style) body.stored
  | .expr value, style, h => value.retexts style h
  | .block body, style, h => body.retexts style h

theorem Block.retexts : (body : Block) → (style : Style) → style.options.preserve = false →
    Retexts texts (body.doc style) ((body.retext texts).doc style) body.stored
  | ⟨stmts, endComments, closing⟩, style, h =>
    ((Stmt.retexts_list stmts style.deeper h).afterCode _).append
      (retexts_closingBrace h closing endComments)

theorem Stmt.retexts_list : (stmts : List Stmt) → (style : Style) → style.options.preserve = false →
    Retexts texts (Stmt.listDoc stmts style) (Stmt.listDoc (Stmt.retextList texts stmts) style)
      (Stmt.storedList stmts)
  | [], _, _ => .code []
  | stmt :: rest, style, h => (stmt.retexts style h).append (Stmt.retexts_list rest style h)

theorem Stmt.retexts : (stmt : Stmt) → (style : Style) → style.options.preserve = false →
    Retexts texts (stmt.doc style) ((stmt.retext texts).doc style) stmt.stored
  | ⟨layout, trailing, kind⟩, style, h => retexts_statementLine h layout trailing (kind.retexts style h)

theorem Stmt.retexts_inline : (stmt : Stmt) → (style : Style) → style.options.preserve = false →
    Retexts texts (stmt.inlineDoc style) ((stmt.retext texts).inlineDoc style) stmt.storedInline
  | ⟨layout, trailing, kind⟩, style, h =>
    ((kind.retexts style h).andHidden trailing.toList).afterHidden layout.comments

theorem Stmt.retexts_branch : (stmt : Stmt) → (style : Style) → style.options.preserve = false →
    Retexts texts (stmt.branchDoc style) ((stmt.retext texts).branchDoc style) stmt.storedBranch
  | ⟨layout, trailing, kind⟩, style, h =>
    Stmt.retexts_branch_of_kind layout trailing kind (fun style h => kind.retexts style h) style h

theorem StmtKind.retexts : (kind : StmtKind) → (style : Style) → style.options.preserve = false →
    Retexts texts (kind.doc style) ((kind.retext texts).doc style) kind.stored
  | .block body, style, h => body.retexts style h
  | .localVar decl, style, h => (decl.retexts style h).andCode _
  | .localClass decl, style, h => (decl.retexts style h).afterHidden decl.layout.comments
  | .expr value, style, h => (value.retexts style h).andCode _
  | .ret none, _, _ => .code _
  | .ret (some value), style, h => ((value.retexts style h).afterCode _).andCode _
  | .ifElse cond yes none, style, h =>
    ((((cond.retexts style h).afterCode _).andCode _).append (yes.retexts_branch style h)).andCode _
  | .ifElse cond yes (some no), style, h =>
    ((((cond.retexts style h).afterCode _).andCode _).append (yes.retexts_branch style h)).append
      (((retexts_afterBranch yes style).andCode _).append (no.retexts_branch style h))
  | .whileLoop cond body, style, h =>
    (((cond.retexts style h).afterCode _).andCode _).append (body.retexts_branch style h)
  | .doWhile body cond, style, h =>
    (((((body.retexts_branch style h).afterCode _).andSame (retexts_afterBranch body style)).andCode
      _).append (cond.retexts style h)).andCode _
  | .forLoop init none [] body, style, h =>
    (((((((init.retexts style h).afterCode _).andCode _).andCode _).andCode _).append
      (Expr.retexts_list [] style h)).andCode _).append (body.retexts_branch style h)
  | .forLoop init none (expr :: update) body, style, h =>
    (((((((init.retexts style h).afterCode _).andCode _).andCode _).andCode _).append
      ((Expr.retexts_list (expr :: update) style h).afterCode _)).andCode _).append
      (body.retexts_branch style h)
  | .forLoop init (some cond) [] body, style, h =>
    (((((((init.retexts style h).afterCode _).andCode _).append
      ((cond.retexts style h).afterCode _)).andCode _).append (Expr.retexts_list [] style h)).andCode
      _).append (body.retexts_branch style h)
  | .forLoop init (some cond) (expr :: update) body, style, h =>
    (((((((init.retexts style h).afterCode _).andCode _).append
      ((cond.retexts style h).afterCode _)).andCode _).append
      ((Expr.retexts_list (expr :: update) style h).afterCode _)).andCode _).append
      (body.retexts_branch style h)
  | .forEach var iterable body, style, h =>
    (((((var.retexts style h).afterCode _).andCode _).append (iterable.retexts style h)).andCode _).append
      (body.retexts_branch style h)
  | .tryBlock [] body catches none, style, h =>
    (((Resource.retexts_list [] style h).afterCode _).append (body.retexts style h)).append
      (CatchClause.retexts_list catches style h) |>.andCode _
  | .tryBlock (resource :: rest) body catches none, style, h =>
    ((((((Resource.retexts_list (resource :: rest) style h).afterCode _).andCode _).afterCode _).append
      (body.retexts style h)).append (CatchClause.retexts_list catches style h)).andCode _
  | .tryBlock [] body catches (some finallyBody), style, h =>
    ((((Resource.retexts_list [] style h).afterCode _).append (body.retexts style h)).append
      (CatchClause.retexts_list catches style h)).append ((finallyBody.retexts style h).afterCode _)
  | .tryBlock (resource :: rest) body catches (some finallyBody), style, h =>
    ((((((Resource.retexts_list (resource :: rest) style h).afterCode _).andCode _).afterCode _).append
      (body.retexts style h)).append (CatchClause.retexts_list catches style h)).append
      ((finallyBody.retexts style h).afterCode _)
  | .throw value, style, h => ((value.retexts style h).afterCode _).andCode _
  | .breakTo _, _, _ => .code _
  | .continueTo _, _, _ => .code _
  | .switch selector cases, style, h =>
    (((selector.retexts style h).afterCode _).andCode _).append
      ((SwitchCase.retexts_list cases style.deeper h).bracedLines style)
  | .sync lock body, style, h =>
    (((lock.retexts style h).afterCode _).andCode _).append (body.retexts style h)
  | .labeled _ body, style, h => (body.retexts_inline style h).afterCode _
  | .assertion cond none, style, h => (((cond.retexts style h).afterCode _).andCode _).andCode _
  | .assertion cond (some message), style, h =>
    (((cond.retexts style h).afterCode _).append ((message.retexts style h).afterCode _)).andCode _
  | .empty, _, _ => .code _

theorem ForInit.retexts : (init : ForInit) → (style : Style) → style.options.preserve = false →
    Retexts texts (init.doc style) ((init.retext texts).doc style) init.stored
  | .decl decl, style, h => decl.retexts style h
  | .exprs values, style, h => Expr.retexts_list values style h

theorem Resource.retexts : (resource : Resource) → (style : Style) → style.options.preserve = false →
    Retexts texts (resource.doc style) ((resource.retext texts).doc style) resource.stored
  | .decl decl, style, h => decl.retexts style h
  | .expr value, style, h => value.retexts style h

theorem Resource.retexts_list : (resources : List Resource) → (style : Style) →
    style.options.preserve = false →
    Retexts texts (Resource.listDoc resources style)
      (Resource.listDoc (Resource.retextList texts resources) style) (Resource.storedList resources)
  | [], _, _ => .code []
  | [resource], style, h => (resource.retexts style h).andNone
  | resource :: next :: rest, style, h =>
    ((resource.retexts style h).andCode _).append (Resource.retexts_list (next :: rest) style h)

theorem LoopVar.retexts : (var : LoopVar) → (style : Style) → style.options.preserve = false →
    Retexts texts (var.doc style) ((var.retext texts).doc style) var.stored
  | ⟨_, annotations, _, _, _⟩, style, h => ((Annot.retexts_inline annotations style h).andCode _).andCode _

theorem CatchClause.retexts_list : (clauses : List CatchClause) → (style : Style) →
    style.options.preserve = false →
    Retexts texts (CatchClause.listDoc clauses style)
      (CatchClause.listDoc (CatchClause.retextList texts clauses) style) (CatchClause.storedList clauses)
  | [], _, _ => .code []
  | ⟨_, annotations, _, _, _, body⟩ :: rest, style, h =>
    ((((((Annot.retexts_inline annotations style h).afterCode _).andCode _).andCode _).andCode _).append
      (body.retexts style h)).append (CatchClause.retexts_list rest style h)

theorem SwitchCase.retexts_list : (cases : List SwitchCase) → (style : Style) →
    style.options.preserve = false →
    Retexts texts (SwitchCase.listDoc cases style)
      (SwitchCase.listDoc (SwitchCase.retextList texts cases) style) (SwitchCase.storedList cases)
  | [], _, _ => .code []
  | ⟨comments, labels, isDefault, form, body⟩ :: rest, style, h =>
    ((((retexts_listDoc comments style).andCode _).append
      ((Expr.retexts_list labels style h).labels isDefault)).append
      (body.retexts_case form style h)).append (SwitchCase.retexts_list rest style h)

theorem Block.retexts_case : (body : Block) → (form : CaseForm) → (style : Style) →
    style.options.preserve = false →
    Retexts texts (body.caseDoc form style) ((body.retext texts).caseDoc form style) (body.storedCase form)
  | ⟨stmts, endComments, closing⟩, .arrowBlock, style, h =>
    (((Stmt.retexts_list stmts style.deeper h).afterCode _).append
      (retexts_closingBrace h closing endComments)).andCode _
  | ⟨stmts, endComments, _⟩, .colon, style, h =>
    ((Stmt.retexts_list stmts style.deeper h).afterCode _).append
      (retexts_listDoc endComments style.deeper)
  | ⟨[], endComments, _⟩, .arrowSingle, _, _ => (Retexts.code _).andHidden endComments
  | ⟨⟨layout, trailing, kind⟩ :: rest, endComments, _⟩, .arrowSingle, style, h =>
    ((((((kind.retexts style h).afterCode _).afterHidden layout.comments).append
      (retexts_trailingDoc trailing style)).andCode _).andUnshown (Stmt.storedList rest)).andHidden
      endComments

theorem LocalVar.retexts : (decl : LocalVar) → (style : Style) → style.options.preserve = false →
    Retexts texts (decl.doc style) ((decl.retext texts).doc style) decl.stored
  | ⟨annotations, _, _, declarators⟩, style, h =>
    (((Annot.retexts_inline annotations style h).andCode _).andCode _).append
      (Declarator.retexts_list declarators style h)

theorem Declarator.retexts : (declarator : Declarator) → (style : Style) →
    style.options.preserve = false →
    Retexts texts (declarator.doc style) ((declarator.retext texts).doc style) declarator.stored
  | ⟨_, _, _, none⟩, _, _ => .code _
  | ⟨_, _, _, some init⟩, style, h => ((init.retexts style h).afterCode _).afterCode _

theorem Declarator.retexts_list : (declarators : List Declarator) → (style : Style) →
    style.options.preserve = false →
    Retexts texts (Declarator.listDoc declarators style)
      (Declarator.listDoc (Declarator.retextList texts declarators) style)
      (Declarator.storedList declarators)
  | [], _, _ => .code []
  | [declarator], style, h => (declarator.retexts style h).andNone
  | declarator :: next :: rest, style, h =>
    ((declarator.retexts style h).andCode _).append (Declarator.retexts_list (next :: rest) style h)

theorem Annot.retexts : (annot : Annot) → (style : Style) → style.options.preserve = false →
    Retexts texts (annot.doc style) ((annot.retext texts).doc style) annot.stored
  | .marker _, _, _ => .code _
  | .single _ value, style, h => ((value.retexts style h).afterCode _).andCode _
  | .pairs _ pairs, style, h => ((ElementPair.retexts_list pairs style h).afterCode _).andCode _

theorem Annot.retexts_inline : (annots : List Annot) → (style : Style) →
    style.options.preserve = false →
    Retexts texts (Annot.inlineDoc annots style) (Annot.inlineDoc (Annot.retextList texts annots) style)
      (Annot.storedList annots)
  | [], _, _ => .code []
  | annot :: rest, style, h =>
    ((annot.retexts style h).andCode _).append (Annot.retexts_inline rest style h)

theorem Annot.retexts_lines : (annots : List Annot) → (style : Style) →
    style.options.preserve = false →
    Retexts texts (Annot.linesDoc annots style) (Annot.linesDoc (Annot.retextList texts annots) style)
      (Annot.storedList annots)
  | [], _, _ => .code []
  | annot :: rest, style, h =>
    (((annot.retexts style h).andCode _).andCode _).append (Annot.retexts_lines rest style h)

theorem ElementPair.retexts_list : (pairs : List ElementPair) → (style : Style) →
    style.options.preserve = false →
    Retexts texts (ElementPair.listDoc pairs style)
      (ElementPair.listDoc (ElementPair.retextList texts pairs) style) (ElementPair.storedList pairs)
  | [], _, _ => .code []
  | [⟨_, value⟩], style, h => ((value.retexts style h).afterCode _).andNone
  | ⟨_, value⟩ :: ⟨name, next⟩ :: rest, style, h =>
    (((value.retexts style h).afterCode _).andCode _).append
      (ElementPair.retexts_list (⟨name, next⟩ :: rest) style h)

theorem ElementValue.retexts : (value : ElementValue) → (style : Style) →
    style.options.preserve = false →
    Retexts texts (value.doc style) ((value.retext texts).doc style) value.stored
  | .expr value, style, h => (value.retexts style h).atLeast value.precedence_retext
  | .annot value, style, h => value.retexts style h
  | .array values, style, h => ((ElementValue.retexts_list values style h).afterCode _).andCode _

theorem ElementValue.retexts_list : (values : List ElementValue) → (style : Style) →
    style.options.preserve = false →
    Retexts texts (ElementValue.listDoc values style)
      (ElementValue.listDoc (ElementValue.retextList texts values) style) (ElementValue.storedList values)
  | [], _, _ => .code []
  | [value], style, h => (value.retexts style h).andNone
  | value :: next :: rest, style, h =>
    ((value.retexts style h).andCode _).append (ElementValue.retexts_list (next :: rest) style h)

theorem Member.retexts_body : (body : Option (List Member)) → (style : Style) →
    style.options.preserve = false →
    Retexts texts (Member.bodyDoc body style) (Member.bodyDoc (Member.retextBody texts body) style)
      (Member.storedBody body)
  | none, _, _ => .code []
  | some members, style, h =>
    ((Member.retexts_list members style.deeper h).bracedLines style).afterCode _

theorem Member.retexts_list : (members : List Member) → (style : Style) →
    style.options.preserve = false →
    Retexts texts (Member.listDoc members style) (Member.listDoc (Member.retextList texts members) style)
      (Member.storedList members)
  | [], _, _ => .code []
  | member :: rest, style, h => (member.retexts style h).append (Member.retexts_list rest style h)

theorem Member.retexts : (member : Member) → (style : Style) → style.options.preserve = false →
    Retexts texts (member.doc style) ((member.retext texts).doc style) member.stored
  | .field ⟨layout, annotations, _, _, declarators, trailing⟩, style, h =>
    retexts_onLines h layout (((((((Annot.retexts_lines annotations style h).afterCode _).andCode
      _).andCode _).append (Declarator.retexts_list declarators style h)).andCode _).append
      (retexts_trailingDoc trailing style))
  | .method ⟨_, layout, annotations, _, _, _, _, params, _, none⟩, style, h =>
    retexts_onLines h layout (((((((((((Annot.retexts_lines annotations style h).afterCode _).andCode
      _).andCode _).andCode _).andCode _).andCode _).append (Param.retexts_list params style h)).andCode
      _).andCode _).andCode _)
  | .method ⟨_, layout, annotations, _, _, _, _, params, _, some body⟩, style, h =>
    retexts_onLines h layout (((((((((((Annot.retexts_lines annotations style h).afterCode _).andCode
      _).andCode _).andCode _).andCode _).andCode _).append (Param.retexts_list params style h)).andCode
      _).andCode _).append ((body.retexts style h).afterCode _))
  | .type ⟨id, layout, annotations, modifiers, kind, name, typeParams, superTypes, interfaces, constants,
      members, endComments, closing⟩, style, h =>
    retexts_onLines h layout ((TypeDecl.retexts ⟨id, layout, annotations, modifiers, kind, name,
      typeParams, superTypes, interfaces, constants, members, endComments, closing⟩ style h).afterCode _)
  | .initializer ⟨layout, _, body⟩, style, h =>
    retexts_onLines h layout ((body.retexts style h).afterCode _)

theorem Param.retexts : (param : Param) → (style : Style) → style.options.preserve = false →
    Retexts texts (param.doc style) ((param.retext texts).doc style) param.stored
  | ⟨_, annotations, _, _, _, _⟩, style, h =>
    ((Annot.retexts_inline annotations style h).andCode _).andCode _

theorem Param.retexts_list : (params : List Param) → (style : Style) → style.options.preserve = false →
    Retexts texts (Param.listDoc params style) (Param.listDoc (Param.retextList texts params) style)
      (Param.storedList params)
  | [], _, _ => .code []
  | [param], style, h => (param.retexts style h).andNone
  | param :: next :: rest, style, h =>
    ((param.retexts style h).andCode _).append (Param.retexts_list (next :: rest) style h)

theorem TypeDecl.retexts : (decl : TypeDecl) → (style : Style) → style.options.preserve = false →
    Retexts texts (decl.inlineDoc style) ((decl.retext texts).inlineDoc style) decl.stored
  | ⟨_, _, annotations, _, _, _, _, _, _, constants, [], endComments, closing⟩, style, h =>
    ((((((((((Annot.retexts_lines annotations style h).andCode _).andCode _).andCode _).andCode _).andCode
      _).andCode _).andCode _).append (EnumConstant.retexts_list constants false style.deeper h)).append
      (Member.retexts_list [] style.deeper h)).append (retexts_closingBrace h closing endComments)
  | ⟨_, _, annotations, _, _, _, _, _, _, constants, member :: rest, endComments, closing⟩, style, h =>
    ((((((((((Annot.retexts_lines annotations style h).andCode _).andCode _).andCode _).andCode _).andCode
      _).andCode _).andCode _).append (EnumConstant.retexts_list constants true style.deeper h)).append
      (Member.retexts_list (member :: rest) style.deeper h)).append
      (retexts_closingBrace h closing endComments)

theorem EnumConstant.retexts : (constant : EnumConstant) → (style : Style) →
    style.options.preserve = false →
    Retexts texts (constant.doc style) ((constant.retext texts).doc style) constant.stored
  | ⟨comments, annotations, _, none, body⟩, style, h =>
    ((((((retexts_listDoc comments style).andCode _).append
      (Annot.retexts_inline annotations style h)).andCode _).andCode _).append
      (Member.retexts_body body style h))
  | ⟨comments, annotations, _, some args, body⟩, style, h =>
    ((((((retexts_listDoc comments style).andCode _).append
      (Annot.retexts_inline annotations style h)).andCode _).append
      (((Expr.retexts_list args style h).afterCode _).andCode _))).append
      (Member.retexts_body body style h)

theorem EnumConstant.retexts_list : (constants : List EnumConstant) → (membersFollow : Bool) →
    (style : Style) → style.options.preserve = false →
    Retexts texts (EnumConstant.listDoc constants membersFollow style)
      (EnumConstant.listDoc (EnumConstant.retextList texts constants) membersFollow style)
      (EnumConstant.storedList constants)
  | [], _, _, _ => .code []
  | [constant], _, style, h => (((constant.retexts style h).andCode _).andCode _).andNone
  | constant :: next :: rest, membersFollow, style, h =>
    (((constant.retexts style h).andCode _).andCode _).append
      (EnumConstant.retexts_list (next :: rest) membersFollow style h)
end

/-! ### Units -/

theorem storedAs_append (shown : Bool) (comments more : List Comment) :
    storedAs shown (comments ++ more) = storedAs shown comments ++ storedAs shown more :=
  List.map_append

theorem ImportDecl.retexts (blankLineBefore : Bool) (decl : ImportDecl) (style : Style) :
    Retexts texts (decl.docAfter blankLineBefore style)
      ((decl.retext texts).docAfter blankLineBefore style) (storedAs true decl.comments) :=
  ((retexts_listDoc decl.comments style).afterCode _).andCode _

theorem ImportDecl.retexts_list (imports : List ImportDecl) (style : Style) :
    Retexts texts (imports.flatMap fun decl => decl.docAfter decl.blankLineBefore style)
      ((imports.map (ImportDecl.retext texts)).flatMap fun decl =>
        decl.docAfter decl.blankLineBefore style)
      (storedAs true (imports.flatMap (·.comments))) := by
  induction imports with
  | nil => exact .code []
  | cons decl rest ih =>
    rw [List.flatMap_cons (f := fun decl : ImportDecl => decl.comments), storedAs_append]
    exact (decl.retexts decl.blankLineBefore style).append ih

/-- The comments in front of the first declaration, and the declarations with theirs. -/
theorem retexts_headerDoc (package : Option PackageDecl) (imports : List ImportDecl) (style : Style) :
    Retexts texts
      (Comment.listDoc (CompilationUnit.headerComments package imports) style ++
        headerDoc package imports style)
      (Comment.listDoc (CompilationUnit.headerComments (package.map (PackageDecl.retext texts))
          (imports.map (ImportDecl.retext texts))) style ++
        headerDoc (package.map (PackageDecl.retext texts)) (imports.map (ImportDecl.retext texts)) style)
      (storedAs true (package.toList.flatMap (·.comments)) ++
        storedAs true (imports.flatMap (·.comments))) := by
  cases package with
  | none =>
    cases imports with
    | nil => exact .code []
    | cons first rest =>
      rw [List.flatMap_cons, storedAs_append]
      exact (retexts_listDoc first.comments style).append ((ImportDecl.retexts_list rest style).afterCode _)
  | some package =>
    rw [Option.toList_some, List.flatMap_singleton]
    cases imports with
    | nil => exact ((retexts_listDoc package.comments style).andCode _).andNone
    | cons first rest =>
      rw [List.flatMap_cons, storedAs_append]
      exact (retexts_listDoc package.comments style).append
        (((first.retexts true style).afterCode _).append (ImportDecl.retexts_list rest style))

section Canonical

variable {style : Style} (hstyle : style.options.preserve = false)

include hstyle

namespace CompilationUnit

theorem frontDoc_eq_header (unit : CompilationUnit) :
    unit.frontDoc style = Comment.listDoc (headerComments unit.package unit.imports) style ++
      headerDoc unit.package unit.imports style := by
  simp only [frontDoc, doc?_eq_none hstyle, hstyle]
  obtain ⟨package, imports, types, endComments, newline, leading, header, closing⟩ := unit
  cases header <;> cases package <;> cases imports <;> rfl

theorem retexts_frontDoc (unit : CompilationUnit) :
    Retexts texts (unit.frontDoc style) ((unit.retext texts).frontDoc style)
      (storedAs true (unit.package.toList.flatMap (·.comments)) ++
        storedAs true (unit.imports.flatMap (·.comments))) := by
  rw [frontDoc_eq_header hstyle, frontDoc_eq_header hstyle]
  exact retexts_headerDoc unit.package unit.imports style

theorem retexts_typeDoc (decl : TypeDecl) :
    Retexts texts (typeDoc style decl) (typeDoc style (decl.retext texts))
      (storedAs true decl.layout.comments ++ decl.stored) := by
  rw [typeDoc, typeDoc, doc?_eq_none hstyle, doc?_eq_none hstyle, reuse_eq hstyle, reuse_eq hstyle]
  have hinline : Retexts texts (decl.inlineDoc style) ((decl.retext texts).inlineDoc style) decl.stored :=
    decl.retexts style hstyle
  obtain ⟨id, layout, annotations, modifiers, kind, name, typeParams, superTypes, interfaces, constants,
    members, endComments, closing⟩ := decl
  exact (((retexts_listDoc layout.comments style).afterCode [.blankLine]).append
    (hinline.afterCode _)).andCode _

theorem retexts_types (types : List TypeDecl) :
    Retexts texts (types.flatMap (typeDoc style))
      ((types.map (TypeDecl.retext texts)).flatMap (typeDoc style))
      (types.flatMap fun decl => storedAs true decl.layout.comments ++ decl.stored) := by
  induction types with
  | nil => exact .code []
  | cons decl rest ih => exact (retexts_typeDoc hstyle decl).append ih

theorem retexts_endDoc (unit : CompilationUnit) :
    Retexts texts (unit.endDoc style) ((unit.retext texts).endDoc style)
      (storedAs true unit.endComments) := by
  rw [endDoc, endDoc, doc?_eq_none hstyle, doc?_eq_none hstyle]
  obtain ⟨package, imports, types, endComments, newline, leading, header, closing⟩ := unit
  cases endComments with
  | nil => exact .code []
  | cons comment rest => exact (retexts_listDoc (comment :: rest) style).afterCode [.blankLine]

theorem retexts_doc (unit : CompilationUnit) :
    Retexts texts (unit.doc style) ((unit.retext texts).doc style) unit.stored :=
  ((retexts_frontDoc hstyle unit).append (retexts_types hstyle unit.types)).append
    (retexts_endDoc hstyle unit)

end CompilationUnit

end Canonical

/-! ### Printed texts -/

theorem shownComments_append (stored more : List Stored) :
    shownComments (stored ++ more) = shownComments stored ++ shownComments more := by
  rw [shownComments, List.filter_append, List.map_append]
  rfl

/-- A document and the one with other comment texts are rendered as the same code with the shown comments in between. -/
theorem Retexts.exists_parts {doc doc' : Doc} {stored : List Stored} (h : Retexts texts doc doc' stored) :
    ∃ parts : List Part, parts.filterMap Part.comment? = shownComments stored ∧ doc.Prints parts ∧
      doc'.Prints (parts.map (Part.retext texts)) := by
  induction h with
  | code doc => exact ⟨[.code doc], rfl, .code doc, .code doc⟩
  | shown comment style =>
    exact ⟨[.comment comment], rfl, comment.prints_doc style, (comment.retext texts).prints_doc style⟩
  | hidden => exact ⟨[], rfl, .nil, .nil⟩
  | append _ _ ih ih' =>
    obtain ⟨parts, hshown, hprints, hprints'⟩ := ih
    obtain ⟨more, hshown', hmore, hmore'⟩ := ih'
    refine ⟨parts ++ more, ?_, hprints.append hmore, ?_⟩
    · rw [List.filterMap_append, hshown, hshown', shownComments_append]
    · rw [List.map_append]
      exact hprints'.append hmore'

/-- A unit prints from the tree as code with the lines of its comments in between: each comment stored in a place that is printed is written exactly once, in the order of the tree, and the others are not. With other texts in the comments the unit prints as the same code with those texts in between. -/
theorem CompilationUnit.writesShown_printCanonical (unit : CompilationUnit) (texts : CommentTexts) :
    ∃ (parts : List Part) (chars chars' : List Char),
      unit.printCanonical = unit.newline.expand (String.ofList chars) ∧
      (unit.retext texts).printCanonical = unit.newline.expand (String.ofList chars') ∧
      parts.filterMap Part.comment? = shownComments unit.stored ∧ Shows parts chars ∧
      Shows (parts.map (Part.retext texts)) chars' := by
  obtain ⟨parts, hparts, hprints, hprints'⟩ := (@retexts_doc texts (.ofOptions { preserve := false }) rfl unit).exists_parts
  obtain ⟨chars, hchars, hshows⟩ := hprints.exists_render
  obtain ⟨chars', hchars', hshows'⟩ := hprints'.exists_render
  exact ⟨parts, chars, chars', congrArg _ hchars, congrArg _ hchars', hparts, hshows, hshows'⟩

/-- A class with a comment of three lines in front of a field and one behind it. -/
def linedText : String := "class A \x7b\n/* a\n      * b\nc */\nint x; // d\n\x7d\n"

/-- The printed form of `linedText`. -/
def linedPrinted : String := "class A \x7b\n    /* a\n     * b\n    c */\n    int x; // d\n\x7d\n"

theorem writesShown_printCanonical_linedText :
    ∃ (unit : CompilationUnit) (next : NodeId) (parts : List Part),
      parseUnit linedText = .ok (unit, next) ∧
      (shownComments unit.stored).map (·.text) = ["/* a\n      * b\nc */", "// d"] ∧
      unit.printCanonical = linedPrinted ∧
      parts.filterMap Part.comment? = shownComments unit.stored ∧ Shows parts linedPrinted.toList := by
  have hread : (parseUnit linedText).toOption.map (fun read => (read.1.newline,
      (shownComments read.1.stored).map (·.text), read.1.printCanonical)) =
    some (.lf, ["/* a\n      * b\nc */", "// d"], linedPrinted) := by decide +kernel
  obtain ⟨⟨unit, next⟩, hparse, hresult⟩ := Option.map_eq_some_iff.1 hread
  simp only [Prod.mk.injEq] at hresult
  obtain ⟨hnewline, htexts, hprint⟩ := hresult
  obtain ⟨parts, chars, -, hchars, -, hparts, hshows, -⟩ := unit.writesShown_printCanonical (·.text)
  have hlined : linedPrinted.toList = chars := by
    rw [← hprint, hchars, hnewline, Text.NewlineStyle.expand, String.toList_ofList]
  exact ⟨unit, next, parts, eq_ok_of_toOption hparse, htexts, hprint, hparts, hlined ▸ hshows⟩

/-- A comment on one line that is stored in a place that is printed is in the printed text. -/
theorem CompilationUnit.infix_printCanonical {unit : CompilationUnit} {comment : Comment}
    (h : comment ∈ shownComments unit.stored) (hline : '\n' ∉ comment.text.toList) :
    comment.text.toList <:+: unit.printCanonical.toList := by
  obtain ⟨parts, hparts, hprints, -⟩ :=
    (@retexts_doc (·.text) (.ofOptions { preserve := false }) rfl unit).exists_parts
  obtain ⟨chars, hchars, hshows⟩ := hprints.exists_render
  obtain ⟨written, hwritten, hinfix⟩ := hshows.exists_infix (hparts ▸ h)
  rw [hwritten.eq_of_not_mem hline] at hinfix
  rw [printCanonical, print, hchars]
  exact Text.infix_expand hinfix hline unit.newline

/-- A text with a comment behind the block of an `if`. -/
def behindBlockText : String := "class A \x7b\x7b if (x) \x7b\x7d // note\n\x7d\x7d\n"

/-- The printed form of `behindBlockText`. -/
def behindBlockPrinted : String :=
  "class A \x7b\n    \x7b\n        if (x) \x7b\n        \x7d\n    \x7d\n\x7d\n"

/-- The comment behind the block of an `if` is stored in the tree, but it is not in the printed text. -/
theorem not_writesAll_behindBlockText : ¬ ∀ (text : String) (unit : CompilationUnit) (next : NodeId),
    parseUnit text = .ok (unit, next) → ∀ entry ∈ unit.stored, '\n' ∉ entry.comment.text.toList →
      entry.comment.text.toList <:+: unit.printCanonical.toList := by
  intro hall
  have hread : (parseUnit behindBlockText).toOption.map
      (fun read => (read.1.stored.map (·.comment.text), read.1.printCanonical)) =
    some (["// note"], behindBlockPrinted) := by decide +kernel
  cases hparse : parseUnit behindBlockText with
  | error failure =>
    rw [hparse] at hread
    cases hread
  | ok result =>
    rw [hparse] at hread
    obtain ⟨hstored, hprint⟩ := Prod.mk.inj (Option.some.inj hread)
    obtain ⟨entry, hentry, htext⟩ : ∃ entry ∈ result.1.stored, entry.comment.text = "// note" :=
      List.mem_map.mp (hstored ▸ List.mem_cons_self)
    have hwithin := hall _ result.1 result.2 hparse entry hentry (htext ▸ by decide)
    rw [htext, hprint] at hwithin
    have hslash : '/' ∉ behindBlockPrinted.toList := by decide +kernel
    exact hslash (hwithin.subset (by decide))

end AdviceMigration.Source
