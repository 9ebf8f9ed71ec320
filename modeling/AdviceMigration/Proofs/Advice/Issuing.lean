import AdviceMigration.Advice.Migration
import AdviceMigration.Proofs.Advice.Dangling
import AdviceMigration.Proofs.Source.Drawing
import AdviceMigration.Proofs.Source.Productions
import Mathlib.Data.List.Flatten

/-!
# Identities through a migration

Every edit of a migration moves the identities it finds, drops them, or draws new ones: a copy is renumbered, and a value that gets another place leaves its old one. So the identities of a unit stay distinct, whatever stands beside the part that is edited.
-/

namespace AdviceMigration.Source

/-- The identities of a method apart from its body. -/
def Method.headIds (method : Method) : List NodeId := method.id :: method.params.map (·.id)

theorem Method.ids_split (method : Method) :
    method.ids = method.headIds ++ method.body.toList.flatMap Block.ids := method.ids_eq

theorem Method.ids_of_body {method : Method} {body : Block} (h : method.body = some body) :
    method.ids = method.headIds ++ body.ids := by
  rw [Method.ids_split, h, Option.toList_some, List.flatMap_singleton]

theorem Block.ids_append (before after : List Stmt) (stmt : Stmt) (endComments : List Comment)
    (closing : Option Trivia) : (Block.mk (before ++ stmt :: after) endComments closing).ids =
      before.flatMap Stmt.ids ++ (stmt.ids ++ after.flatMap Stmt.ids) := by
  rw [Block.ids_mk, List.flatMap_append, List.flatMap_cons]

theorem Stmt.ids_withLeading (stmt : Stmt) (comments : List Comment) (blank : Bool)
    (leading : Option Trivia) : (stmt.withLeading comments blank leading).ids = stmt.ids := by
  rw [Stmt.ids_eq, Stmt.ids_eq]
  rfl

end AdviceMigration.Source

namespace AdviceMigration.Advice

open AdviceMigration.Source AdviceMigration.Scope

/-! ### Replaced references -/

/-- A reference gives way to a copy, and every copy has identities of its own. -/
theorem admits_replacing (scopes : BodyScopes) (decl : NodeId) (replacement : Expr) :
    (Fresh.countingLedger fun _ => true).Admits (replacing scopes decl replacement) where
  decl := fun id count next => by
    rw [List.filter_true]
    exact .refl [id] next
  name := fun id name count next => by
    rw [List.filter_true]
    have hkept : Redrawn [id] next [id] next := .refl [id] next
    simp only [replacing]
    split
    · split
      · exact Redrawn.trans (.of_sublist (List.nil_sublist _)) (replacement.keeps_freshCopy next)
      · exact hkept
    · exact hkept

theorem keeps_replaceReferences (method : Method) (decl : NodeId) (replacement : Expr) :
    Fresh.Keeps method.ids (replaceReferences method decl replacement) fun result => result.1.ids := by
  intro next
  have hbody := Block.keepsOption (admits_replacing (BodyScopes.ofMethod method) decl replacement)
    method.body 0 next
  rw [List.filter_true] at hbody
  have hsplit := Method.ids_split ((replaceReferences method decl replacement).run next).1.1
  rw [Method.ids_split]
  exact (hbody.frame method.headIds).of_eq hsplit.symm

/-! ### Statements -/

/-- An inserted statement brings its identities with it. -/
theorem count_insertBefore? {body body' : Block} {path : StmtPath} {stmt : Stmt}
    (h : insertBefore? body path stmt = some body') (id : Nat) :
    body'.ids.count id = body.ids.count id + stmt.ids.count id := by
  obtain ⟨blockPath, front, back, anchor, endComments, closing, change, -, hblock, hchange,
    hupdate⟩ := insertBefore?_eq_some h
  obtain ⟨block, block', hblock', hchange', hcount⟩ := Block.ids_updateBlock? hupdate
  rw [hblock] at hblock'
  cases hblock'
  rw [hchange] at hchange'
  cases hchange'
  have hid := hcount id
  simp only [Block.ids_append, List.flatMap_cons, List.count_append, Stmt.ids_withLeading] at hid
  omega

/-- A value that is put into a `return` takes the place of the one that was there. -/
theorem count_setReturn {body : Block} {path : StmtPath} {previous : Option Expr}
    (h : returnAt? body path = some previous) (value : Option Expr) (id : Nat) :
    (setReturn body path value).ids.count id + (previous.toList.flatMap Expr.ids).count id =
      body.ids.count id + (value.toList.flatMap Expr.ids).count id := by
  obtain ⟨stmt, hstmt, hkind⟩ := returnAt?_eq_some h
  obtain ⟨body', hbody'⟩ := Block.exists_updateStmt? (fun stmt => { stmt with kind := .ret value })
    hstmt
  obtain ⟨stmt', hstmt', hcount⟩ := Block.ids_updateStmt? hbody'
  rw [hstmt] at hstmt'
  cases hstmt'
  have hid := hcount id
  rw [Stmt.ids_eq, Stmt.ids_eq, hkind, StmtKind.ids_ret, StmtKind.ids_ret] at hid
  rw [setReturn, hbody', Option.getD_some]
  exact hid

/-! ### Removed declarations -/

theorem sublist_eraseParam (method : Method) (decl : NodeId) :
    (method.eraseParam decl).ids.Sublist method.ids := by
  rw [Method.ids_split, Method.ids_split]
  exact (((List.eraseP_sublist).map _).cons_cons _).append_right _

theorem sublist_eraseParams (method : Method) (decls : List NodeId) :
    (AdviceLocals.eraseParams method decls).ids.Sublist method.ids := by
  induction decls generalizing method with
  | nil => exact .refl _
  | cons decl rest ih => exact (ih (method.eraseParam decl)).trans (sublist_eraseParam method decl)

theorem sublist_withoutDeclarator (decl : NodeId) (stmt : Stmt) :
    (withoutDeclarator decl stmt).ids.Sublist stmt.ids := by
  rw [withoutDeclarator]
  split
  next declared hkind =>
    rw [Stmt.ids_eq, Stmt.ids_eq, hkind, StmtKind.ids_localVar, StmtKind.ids_localVar,
      LocalVar.ids_mk]
    obtain ⟨annotations, modifiers, type, declarators⟩ := declared
    rw [LocalVar.ids_mk]
    exact List.filter_sublist.flatMap _
  next => exact .refl _

theorem sublist_removeStmt? {block block' : Block} {index : Nat}
    (h : removeStmt? block index = some block') : block'.ids.Sublist block.ids := by
  obtain ⟨stmts, endComments, closing⟩ := block
  rw [removeStmt?] at h
  split at h
  next removed next hremoved hnext =>
    obtain ⟨front, back, rfl, rfl⟩ := Focus.exists_split_of_getElem? hremoved
    cases back with
    | nil => simp at hnext
    | cons other rest =>
      obtain rfl : other = next := by simpa using hnext
      have hids : (inheritLeading removed other).ids = other.ids := Stmt.ids_withLeading _ _ _ _
      simp [List.eraseIdx_append] at h
      rw [← h, Block.ids_append, Block.ids_append, List.flatMap_cons, hids]
      exact (List.sublist_append_right _ _).append_left _
  next removed hremoved hnext =>
    cases h
    rw [Block.ids_mk, Block.ids_mk]
    exact (List.eraseIdx_sublist _ _).flatMap _
  next => cases h

theorem count_removeLocal? {body body' : Block} {decl : NodeId}
    (h : removeLocal? body decl = some body') (id : Nat) :
    body'.ids.count id ≤ body.ids.count id := by
  rw [removeLocal?] at h
  split at h
  next => cases h
  next path stmt hfind =>
    split at h
    · obtain ⟨stmt, -, hcount⟩ := Block.ids_updateStmt? h
      have hid := hcount id
      have hle := (sublist_withoutDeclarator decl stmt).count_le id
      omega
    · split at h
      · cases h
      · obtain ⟨block, block', -, hremove, hcount⟩ := Block.ids_updateBlock? h
        have hid := hcount id
        have hle := (sublist_removeStmt? hremove).count_le id
        omega

theorem count_removeDeclaration? {method method' : Method} {decl : NodeId}
    (h : removeDeclaration? method decl = some method') (id : Nat) :
    method'.ids.count id ≤ method.ids.count id := by
  rw [removeDeclaration?] at h
  split at h
  · cases h
    exact (sublist_eraseParam method decl).count_le id
  · split at h
    next => cases h
    next body hbody =>
      obtain ⟨body', hremove, rfl⟩ := Option.map_eq_some_iff.1 h
      rw [Method.ids_of_body hbody, Method.ids_split, List.count_append, List.count_append]
      refine Nat.add_le_add_left ?_ _
      rw [Option.toList_some, List.flatMap_singleton]
      exact count_removeLocal? hremove id

theorem count_prune (method : Method) (decl : NodeId) (id : Nat) :
    (prune method decl).ids.count id ≤ method.ids.count id := by
  rw [prune, pruneIfUnused?]
  split
  · cases hremove : removeDeclaration? method decl with
    | none => exact Nat.le_refl _
    | some method' => exact count_removeDeclaration? hremove id
  · exact Nat.le_refl _

theorem count_foldl_prune (method : Method) (decls : List NodeId) (id : Nat) :
    (decls.foldl prune method).ids.count id ≤ method.ids.count id := by
  induction decls generalizing method with
  | nil => exact Nat.le_refl _
  | cons decl rest ih => exact Nat.le_trans (ih (prune method decl)) (count_prune method decl id)

/-! ### Returned values -/

theorem keeps_nameSlots (values : List ValueToReturn) :
    Fresh.Keeps [] (nameSlots values) fun exprs => exprs.flatMap Expr.ids := by
  induction values with
  | nil => exact .pure .nil
  | cons value rest ih =>
    refine .andThen (Expr.keeps_fresh value.name) fun slot => .bind ih fun slots => .pure ?_
    exact .refl _

theorem keeps_returnTemplate (values : List ValueToReturn) :
    Fresh.Keeps [] (returnTemplate values) fun template => template.toList.flatMap Expr.ids := by
  unfold returnTemplate
  split
  · exact .pure .nil
  · refine .andThen (Expr.keeps_fresh _) fun slot => .pure ?_
    simp
  · refine .andThen (keeps_nameSlots _) fun slots => .pure ?_
    simp

/-- A packed `return` gives back a copy of the template; the value it gave back before moves or goes. -/
theorem keeps_packReturn (template : Expr) (body : Block) (path : StmtPath) :
    Fresh.Keeps body.ids (packReturn template body path) fun result => result.1.ids := by
  unfold packReturn
  split
  next => exact .pure (.refl _)
  next previous hreturn =>
    refine .bind template.keeps_freshCopy fun copy => ?_
    have hset := count_setReturn hreturn (some copy)
    rw [Option.toList_some, List.flatMap_singleton] at hset
    have hkept : ∀ packed : Bool, Fresh.Keeps (body.ids ++ copy.ids)
        (pure (setReturn body path (some copy), packed)) fun result => result.1.ids := by
      refine fun packed => .of_count_le fun id => ?_
      have hid := hset id
      rw [List.count_append]
      exact Nat.le_of_add_right_le (Nat.le_of_eq hid)
    split
    next => exact hkept true
    next value hvalue =>
      dsimp only
      split
      next body' hinsert =>
        refine .of_count_le fun id => ?_
        have hid := hset id
        have hid' := count_insertBefore? hinsert id
        rw [(Option.filter_eq_some_iff.1 hvalue).1, Option.toList_some, List.flatMap_singleton] at hid
        rw [List.count_append]
        simp only [Stmt.ofKind, Stmt.ids_mk, StmtKind.ids_expr] at hid'
        change body'.ids.count id ≤ _
        omega
      next => exact hkept false

theorem keeps_packReturnsAt (template : Expr) (body : Block) (paths : List StmtPath) :
    Fresh.Keeps body.ids (packReturnsAt template body paths) fun result => result.1.ids := by
  induction paths generalizing body with
  | nil => exact .pure (.refl _)
  | cons path rest ih =>
    refine .andThen (keeps_packReturn template body path) ?_
    rintro ⟨body, packed⟩
    cases packed with
    | true => exact ih body
    | false => exact .pure (.refl _)

theorem ids_closeBody (body : Block) : (closeBody body).ids = body.ids := by
  rw [closeBody]
  split
  · rw [Block.ids_eq, Block.ids_eq, List.flatMap_append]
    exact List.append_nil _
  · rfl

theorem keeps_packReturns (method : Method) (values : List ValueToReturn) :
    Fresh.Keeps method.ids (packReturns method values) fun result => result.1.ids := by
  unfold packReturns
  refine .bind (keeps_returnTemplate values) fun template => ?_
  split
  next => exact .narrow (.pure (.refl _)) (List.sublist_append_left _ _)
  next template =>
    refine .narrow ?_ (List.sublist_append_left _ _)
    split
    next => exact .pure (.refl _)
    next body hbody =>
      rw [Method.ids_of_body hbody, ← ids_closeBody body]
      refine .andThen (.frame (keeps_packReturnsAt template _ _) method.headIds) ?_
      rintro ⟨body, packed⟩
      cases packed with
      | true => exact .pure (.of_eq (Method.ids_of_body rfl))
      | false => exact .pure (.of_eq (Method.ids_of_body rfl))

/-! ### Folded assignments -/

theorem count_flatMap_set (items : List Expr) (slot : Nat) (value : Expr) (id : Nat) :
    ((items.set slot value).flatMap Expr.ids).count id ≤
      (items.flatMap Expr.ids).count id + value.ids.count id := by
  induction items generalizing slot with
  | nil => exact Nat.zero_le _
  | cons item rest ih =>
    cases slot with
    | zero =>
      rw [List.set_cons_zero, List.flatMap_cons, List.flatMap_cons, List.count_append,
        List.count_append]
      omega
    | succ slot =>
      have hrest := ih slot
      rw [List.set_cons_succ, List.flatMap_cons, List.flatMap_cons, List.count_append,
        List.count_append]
      omega

theorem count_withSlot (packed : Bool) (slot : Nat) (value : Expr) (ret : Stmt) (id : Nat) :
    (withSlot packed slot value ret).ids.count id ≤ ret.ids.count id + value.ids.count id := by
  unfold withSlot
  split
  next element dims items hkind =>
    have hset := count_flatMap_set items slot value id
    rw [Stmt.ids_eq, Stmt.ids_eq, hkind]
    simp only [StmtKind.ids_ret, Option.toList_some, List.flatMap_singleton, Expr.ids_newArray,
      Option.getD_some, List.count_append]
    omega
  next =>
    rw [Stmt.ids_eq]
    simp only [StmtKind.ids_ret, Option.toList_some, List.flatMap_singleton]
    omega
  next => omega

theorem kind_of_foldable? {packed : Bool} {pending : List String} {stmt ret : Stmt} {fold : Fold}
    (h : foldable? packed pending stmt ret = some fold) :
    ∃ target, stmt.kind = .expr (.assign target .assign fold.value) := by
  rw [foldable?] at h
  split at h
  next => cases h
  next name value hassignment =>
    rw [assignment?] at hassignment
    split at hassignment
    next hkind =>
      cases hassignment
      split at h
      · dsimp only at h
        split at h
        · cases h
        · split at h
          · cases h
          · split at h
            · cases h
            · cases h
              exact ⟨_, hkind⟩
      · cases h
    next => cases hassignment

/-- The `return` takes over the value of the assignment, not its target. -/
theorem count_absorb {packed : Bool} {pending : List String} {stmt ret : Stmt} {fold : Fold}
    (h : foldable? packed pending stmt ret = some fold) (id : Nat) :
    (absorb packed fold stmt ret).ids.count id ≤ stmt.ids.count id + ret.ids.count id := by
  have habsorb : (absorb packed fold stmt ret).ids =
      (withSlot packed fold.slot fold.value ret).ids := Stmt.ids_withLeading _ _ _ _
  have hslot := count_withSlot packed fold.slot fold.value ret id
  have hvalue : fold.value.ids.count id ≤ stmt.ids.count id := by
    obtain ⟨target, hkind⟩ := kind_of_foldable? h
    rw [Stmt.ids_eq, hkind, StmtKind.ids_expr, Expr.ids_assign, List.count_append]
    exact Nat.le_add_left _ _
  rw [habsorb]
  omega

theorem count_foldInto (packed : Bool) (before : List Stmt) (pending : List String) (ret : Stmt)
    (id : Nat) :
    ((foldInto packed before pending ret).1.flatMap Stmt.ids).count id +
        (foldInto packed before pending ret).2.1.ids.count id ≤
      (before.flatMap Stmt.ids).count id + ret.ids.count id := by
  fun_induction foldInto packed before pending ret with
  | case1 => exact Nat.le_refl _
  | case2 => exact Nat.le_refl _
  | case3 stmt before pending ret fold hfold kept ret' count hrest ih =>
    have habsorb := count_absorb hfold id
    rw [hrest] at ih
    rw [List.flatMap_cons, List.count_append]
    dsimp only at ih ⊢
    omega

theorem count_foldBlock (returned : List String) (block : Block) (index id : Nat) :
    (foldBlock returned block index).1.ids.count id ≤ block.ids.count id := by
  obtain ⟨stmts, endComments, closing⟩ := block
  rw [foldBlock]
  split
  next => exact Nat.le_refl _
  next ret hret =>
    obtain ⟨front, back, rfl, rfl⟩ := Focus.exists_split_of_getElem? hret
    have hfold := count_foldInto (1 < returned.length) front.reverse returned ret id
    rw [(front.reverse_perm.flatMap_right _).count_eq] at hfold
    have hfront : (front ++ ret :: back).take front.length = front := List.take_left
    have hback : (front ++ ret :: back).drop (front.length + 1) = back := by simp
    rcases hfolded : foldInto (1 < returned.length) front.reverse returned ret with ⟨kept, ret', n⟩
    have hkept := (kept.reverse_perm.flatMap_right Stmt.ids).count_eq id
    simp only [hfolded] at hfold
    simp only [hfront, hback, hfolded, Block.ids_append, List.count_append]
    omega

theorem count_foldAt (returned : List String) (body : Block) (path : StmtPath) (id : Nat) :
    (foldAt returned body path).1.ids.count id ≤ body.ids.count id := by
  rw [foldAt]
  split
  · exact Nat.le_refl _
  · split
    next => exact Nat.le_refl _
    next blockPath index hindex _ block hblock =>
      dsimp only
      cases hupdate : body.updateBlock? blockPath fun _ => some (foldBlock returned block index).1 with
      | none => exact Nat.le_refl _
      | some body' =>
        obtain ⟨other, block', hother, hblock', hcount⟩ := Block.ids_updateBlock? hupdate
        rw [hblock] at hother
        cases hother
        cases hblock'
        have hid := hcount id
        have hfold := count_foldBlock returned block index id
        rw [Option.getD_some]
        omega

theorem count_foldReturns (method : Method) (returned : List String) (id : Nat) :
    (foldReturns method returned).1.ids.count id ≤ method.ids.count id := by
  have hall : ∀ (paths : List StmtPath) (body : Block),
      (foldAll returned body paths).1.ids.count id ≤ body.ids.count id := by
    intro paths
    induction paths with
    | nil => exact fun body => Nat.le_refl _
    | cons path rest ih => exact fun body => Nat.le_trans (ih _) (count_foldAt returned body path id)
  rw [foldReturns]
  split
  next => exact Nat.le_refl _
  next body hbody =>
    rw [Method.ids_of_body hbody, Method.ids_split, Option.toList_some, List.flatMap_singleton,
      List.count_append, List.count_append]
    exact Nat.add_le_add_left (hall _ body) _

/-! ### The carrier -/

namespace AdviceLocals

theorem keeps_access (locals : AdviceLocals) (var : String) (param : NodeId) :
    Fresh.Keeps [] (locals.access var param) Expr.ids := by
  unfold access
  refine .andThen (Expr.keeps_fresh var) fun carrier => ?_
  split
  · refine .pure ?_
    split
    · exact .of_eq (Expr.ids_field _ _)
    · exact .refl _
  · exact .pure (.refl _)

/-- The carrier that was built for a parameter is only copied. -/
theorem keeps_readFromCarrier (locals : AdviceLocals) (var : String) (method : Method)
    (params : List NodeId) :
    Fresh.Keeps method.ids (locals.readFromCarrier var method params) Method.ids := by
  induction params generalizing method with
  | nil => exact .pure (.refl _)
  | cons param rest ih =>
    refine .bind (locals.keeps_access var param) fun carrier => ?_
    refine .narrow ?_ (List.sublist_append_left _ _)
    exact .andThen (keeps_replaceReferences method param carrier) fun result => ih result.1

theorem count_declareFirst (method : Method) (decl : LocalVar) (id : Nat) :
    (declareFirst method decl).ids.count id ≤ (method.ids ++ decl.ids).count id := by
  rw [List.count_append]
  cases hbody : method.body with
  | none =>
    have hids : (declareFirst method decl).ids = method.ids := by
      rw [Method.ids_eq, Method.ids_eq, declareFirst, hbody]
      rfl
    rw [hids]
    exact Nat.le_add_right _ _
  | some body =>
    have hids : (declareFirst method decl).ids =
        method.headIds ++ (decl.ids ++ body.stmts.flatMap Stmt.ids) := by
      rw [Method.ids_split, declareFirst, hbody]
      rw [Option.map_some, Option.toList_some, List.flatMap_singleton, Block.ids_mk,
        List.flatMap_cons]
      rfl
    rw [hids, Method.ids_of_body hbody, Block.ids_eq]
    simp only [List.count_append]
    omega

theorem ids_single (id : NodeId) (type : TypeRef) (name : String) (init : Expr) :
    (LocalVar.single id type name init).ids = id :: init.ids := by
  simp [LocalVar.single]

theorem ids_initialValue (locals : AdviceLocals) (type : TypeRef) :
    (locals.initialValue type).ids = [] := by
  unfold initialValue
  split
  · simp
  · split <;> rfl

/-- A returned value moves to the assignment that stores it. -/
theorem keeps_storeReturn (target : Expr) (body : Block) (path : StmtPath) :
    Fresh.Keeps body.ids (storeReturn target body path) fun result => result.1.ids := by
  unfold storeReturn
  split
  next value hreturn =>
    refine .bind target.keeps_freshCopy fun copy => ?_
    have hset := count_setReturn hreturn none
    rw [Option.toList_some, List.flatMap_singleton, Option.toList_none, List.flatMap_nil] at hset
    dsimp only
    split
    next body' hinsert =>
      refine .of_count_le fun id => ?_
      have hid := hset id
      have hid' := count_insertBefore? hinsert id
      simp only [Stmt.ofKind, Stmt.ids_mk, StmtKind.ids_expr, Expr.ids_assign, List.count_append]
        at hid'
      rw [List.count_append]
      change body'.ids.count id ≤ _
      rw [List.count_nil] at hid
      omega
    next =>
      refine .of_count_le fun id => ?_
      have hid := hset id
      rw [List.count_nil] at hid
      rw [List.count_append]
      change (setReturn body path none).ids.count id ≤ _
      omega
  next => exact .pure (.refl _)

theorem keeps_storeReturnsAt (target : Expr) (body : Block) (paths : List StmtPath) :
    Fresh.Keeps body.ids (storeReturnsAt target body paths) fun result => result.1.ids := by
  induction paths generalizing body with
  | nil => exact .pure (.refl _)
  | cons path rest ih =>
    refine .andThen (keeps_storeReturn target body path) fun (body, stored) => ?_
    cases stored with
    | true => exact ih body
    | false => exact .pure (.refl _)

theorem keeps_storeReturns (locals : AdviceLocals) (var : String) (body : Block) :
    Fresh.Keeps body.ids (locals.storeReturns var body) fun result => result.1.ids := by
  unfold storeReturns
  split
  · exact .pure (.refl _)
  · refine .bind (locals.keeps_access var _) fun target => ?_
    exact .narrow (keeps_storeReturnsAt target body _) (List.sublist_append_left _ _)

theorem keeps_transformEnter (locals : AdviceLocals) (method : Method) :
    Fresh.Keeps method.ids (locals.transformEnter method) fun result => result.1.ids := by
  unfold transformEnter
  split
  next => exact .pure (.refl _)
  next base type hcarrier =>
    split
    · exact .pure (.refl _)
    · dsimp only
      refine .andThen (locals.keeps_readFromCarrier _ method _) fun moved => ?_
      have herase := sublist_eraseParams moved (locals.enter.map fun entry => entry.2.param)
      generalize eraseParams moved (locals.enter.map fun entry => entry.2.param) = erased at herase ⊢
      refine .narrow ?_ herase
      split
      next => exact .pure (.refl _)
      next body hbody =>
        rw [Method.ids_of_body hbody]
        refine .andThen (.frame (locals.keeps_storeReturns _ body) _) ?_
        rintro ⟨body, stored⟩
        cases stored with
        | false => exact .pure (.of_eq (Method.ids_of_body rfl))
        | true =>
          refine .bind Fresh.keeps_id fun decl => .of_count_le fun id => ?_
          refine Nat.le_trans (count_declareFirst _ _ id) (Nat.le_of_eq ?_)
          rw [ids_single, ids_initialValue, @Method.ids_of_body _ body rfl]
          rfl

/-! ### The parameter that receives it -/

theorem count_addParam (method : Method) (param : Param) (id : Nat) :
    ({ method with params := method.params ++ [param] } : Method).ids.count id =
      (method.ids ++ [param.id]).count id := by
  simp only [Method.ids_eq, List.map_append, List.map_singleton, List.cons_append,
    List.count_append, List.count_cons]
  omega

theorem keeps_receive (method : Method) (annot : Annot) (type : TypeRef) (var : String) :
    Fresh.Keeps method.ids (receive method annot type var) fun result => result.1.ids :=
  .bind Fresh.keeps_id fun param => .of_count_le fun id =>
    Nat.le_of_eq (count_addParam method (.single param annot type var) id)

theorem keeps_receivePacked (method : Method) (annot : Annot) (type : TypeRef)
    (var packed : String) :
    Fresh.Keeps method.ids (receivePacked method annot type var packed)
      fun result => result.1.ids := by
  unfold receivePacked
  refine .bind Fresh.keeps_id fun param => ?_
  refine .bind (Expr.keeps_fresh packed) fun source => ?_
  refine .bind Fresh.keeps_id fun decl => .of_count_le fun id => ?_
  have hzero : (Expr.ofInt 0).ids = [] := rfl
  have hdeclare := count_declareFirst method
    (.single decl type var (.cast type (.index source (.ofInt 0)))) id
  rw [ids_single, Expr.ids_cast, Expr.ids_index, hzero, List.append_nil] at hdeclare
  have hparam := count_addParam (declareFirst method
    (.single decl type var (.cast type (.index source (.ofInt 0)))))
    (.single param annot (.array objectType) packed) id
  simp only [List.count_append, List.count_cons, List.count_nil, Param.single] at hdeclare hparam ⊢
  omega

theorem keeps_transformExit (locals : AdviceLocals) (method : Method) (enterPacked : Bool)
    (annot : Annot) :
    Fresh.Keeps method.ids (locals.transformExit method enterPacked annot)
      fun result => result.1.ids := by
  unfold transformExit
  split
  · exact .pure (.refl _)
  · split
    · exact .pure (.refl _)
    · split
      · exact .pure (.refl _)
      · dsimp only
        refine .andThen (locals.keeps_readFromCarrier _ method _) fun moved => ?_
        refine .narrow ?_ (sublist_eraseParams moved locals.exitParams)
        cases enterPacked with
        | true => exact .andThen (keeps_receivePacked _ _ _ _ _) fun result => .pure (.refl _)
        | false => exact .andThen (keeps_receive _ _ _ _) fun result => .pure (.refl _)

/-! ### The container -/

theorem keeps_fieldsFor (params : List HandedParam) :
    Fresh.Keeps [] (fieldsFor params) fun fields => fields.flatMap Member.ids := by
  induction params with
  | nil => exact .pure .nil
  | cons param rest ih =>
    refine .andThen Fresh.keeps_id fun field => .bind ih fun fields => .pure ?_
    exact .refl _

theorem keeps_container (locals : AdviceLocals) :
    Fresh.Keeps [] locals.container TypeDecl.ids := by
  unfold container
  refine .andThen Fresh.keeps_id fun decl => .bind (keeps_fieldsFor _) fun fields => .pure ?_
  rw [TypeDecl.ids_eq]
  exact .refl _

end AdviceLocals

end AdviceMigration.Advice
