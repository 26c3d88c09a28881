import Cadence.Program.Vocabulary
import Cadence.Proofs.Program.Meaning
import Cadence.Proofs.Tree.Traversal
import Mathlib.Data.List.Forall2

/-! Values that stay. A tree is evaluated over and over, each time in some context, and some of the evaluations fail on
their way. Whatever names stand for and whatever functions do, places are filled from below and never emptied: a node
with children gets its value when all those below it have theirs, and from then on gives this value and does nothing
else. -/

namespace Cadence

variable {F R M : Type}

namespace Node

namespace IsApplication

variable {P : Type} {rebuild : List (Node P) → P → Node P}

theorem isCompound_eq (h : IsApplication rebuild) {children : List (Node P)} {payload : P} :
    (rebuild children payload).isCompound = true := by
  cases h <;> rfl

theorem payload_eq (h : IsApplication rebuild) (children : List (Node P)) (payload : P) :
    (rebuild children payload).payload = payload := by
  cases h <;> rfl

theorem preorder_eq (h : IsApplication rebuild) (children : List (Node P)) (payload : P) :
    (rebuild children payload).preorder = rebuild children payload :: preorders children := by
  cases h <;> rfl

theorem strip_eq (h : IsApplication rebuild) {children children' : List (Node P)} (payload payload' : P)
    (hsame : children.map strip = children'.map strip) :
    (rebuild children payload).strip = (rebuild children' payload').strip := by
  cases h with
  | row gaps => rw [strip_row, strip_row, hsame]
  | block indent gaps => rw [strip_block, strip_block, hsame]

end IsApplication

/-- Whether all nodes with children, of some nodes, have values. -/
def Full (nodes : List (BoundTree F R M)) : Prop :=
  ∀ node ∈ nodes, node.isCompound = true → node.payload.hasValue = true

/-- Whether a node with children has a place, which is filled only if the places below are. -/
def Layer (node : BoundTree F R M) : Prop :=
  node.isCompound = true →
    (∃ value, node.payload = ⟨none, .thunk value⟩) ∧ (node.payload.hasValue = true → Full node.preorder)

theorem mem_preorder {P : Type} (node : Node P) : node ∈ node.preorder := by
  cases node with
  | name | numeral | paren | row | block => exact List.mem_cons_self

/-- A place that may be filled only above filled ones. -/
theorem Layer.place {node : BoundTree F R M} (h : node.Layer) (hcompound : node.isCompound = true) :
    node.payload = .empty ∨ ∃ value, node.payload = ⟨none, .thunk (some value)⟩ ∧ Full node.preorder := by
  obtain ⟨⟨value, hplace⟩, hfull⟩ := h hcompound
  cases value with
  | none => exact Or.inl hplace
  | some value =>
      refine Or.inr ⟨value, hplace, hfull ?_⟩
      rw [hplace]
      rfl

/-- Whether a node is another one at a later time: the same tree, which has kept its value if it had one. -/
def Later (node later : BoundTree F R M) : Prop :=
  later.strip = node.strip ∧ (node.payload.hasValue = true → later.payload = node.payload)

theorem Later.refl (node : BoundTree F R M) : Later node node := ⟨rfl, fun _ => rfl⟩

theorem Later.trans {node later last : BoundTree F R M} (h : Later node later) (h' : Later later last) :
    Later node last := by
  refine ⟨h'.1.trans h.1, fun hvalue => ?_⟩
  have hkept := h.2 hvalue
  rw [← hkept] at hvalue ⊢
  exact h'.2 hvalue

theorem forall₂_later_refl (nodes : List (BoundTree F R M)) : List.Forall₂ Later nodes nodes :=
  List.forall₂_same.mpr fun node _ => Later.refl node

theorem forall₂_later_trans {nodes laters lasts : List (BoundTree F R M)} (h : List.Forall₂ Later nodes laters)
    (h' : List.Forall₂ Later laters lasts) : List.Forall₂ Later nodes lasts := by
  induction h generalizing lasts with
  | nil => exact h'
  | cons hnode _ ih =>
      cases h' with
      | cons hlater hlaters => exact .cons (hnode.trans hlater) (ih hlaters)

mutual

theorem layered_of_fresh {bindings : Bindings F R M} {node : BoundTree F R M} (h : node.Fresh bindings) :
    ∀ inner ∈ node.preorder, inner.Layer := by
  match node with
  | .name .. | .numeral .. =>
      rw [preorder, List.forall_mem_singleton]
      exact fun hcompound => nomatch hcompound
  | .paren child before behind term =>
      obtain ⟨rfl, hchild⟩ := h
      rw [preorder, List.forall_mem_cons]
      exact ⟨fun _ => ⟨⟨none, rfl⟩, fun hvalue => nomatch hvalue⟩, layered_of_fresh hchild⟩
  | .row children _ _ | .block children _ _ _ =>
      obtain ⟨rfl, hchildren⟩ := h
      rw [preorder, List.forall_mem_cons]
      exact ⟨fun _ => ⟨⟨none, rfl⟩, fun hvalue => nomatch hvalue⟩, layered_of_allFresh hchildren⟩

theorem layered_of_allFresh {bindings : Bindings F R M} {nodes : List (BoundTree F R M)}
    (h : AllFresh bindings nodes) : ∀ inner ∈ preorders nodes, inner.Layer := by
  match nodes with
  | [] => exact List.forall_mem_nil _
  | node :: others =>
      rw [preorders, List.forall_mem_append]
      exact ⟨layered_of_fresh h.1, layered_of_allFresh h.2⟩

end

end Node

/-- What an evaluation does to the nodes that it goes through: it leaves the same nodes at a later time, filled from
below, and, if it comes to a value, all of them filled. -/
structure Evaluation.Memoizes {A B S : Type} (evaluation : Evaluation F R M A B) (before : B)
    (nodes : B → List (BoundTree F R M)) (shape : B → S) : Prop where
  shape : shape evaluation.tree = shape before
  later : List.Forall₂ Node.Later (nodes before) (nodes evaluation.tree)
  layered : ∀ node ∈ nodes evaluation.tree, node.Layer
  full (value : A) (h : evaluation.result = .ok value) : Node.Full (nodes evaluation.tree)

namespace Node

/-- An evaluation that leaves a tree as it is. -/
theorem memoizes_of_tree {A : Type} {evaluation : Evaluation F R M A (BoundTree F R M)} {node : BoundTree F R M}
    (htree : evaluation.tree = node) (hlayered : ∀ inner ∈ node.preorder, inner.Layer) (hfull : Full node.preorder) :
    evaluation.Memoizes node preorder strip := by
  subst htree
  exact ⟨rfl, forall₂_later_refl _, hlayered, fun _ _ => hfull⟩

/-- A node whose place is filled by way of its children. -/
theorem memoizes_keep {B S : Type} {evaluation : Evaluation F R M (Value F R) B} {before : B}
    {nodes : B → List (BoundTree F R M)} {shape : B → S} (h : evaluation.Memoizes before nodes shape)
    (rebuild : B → Term F R M → BoundTree F R M) (hpayload : ∀ parts term, (rebuild parts term).payload = term)
    (hnodes : ∀ parts term, (rebuild parts term).preorder = rebuild parts term :: nodes parts)
    (hshape : ∀ parts parts' term term', shape parts = shape parts' →
      (rebuild parts term).strip = (rebuild parts' term').strip) :
    (evaluation.keep .empty rebuild).Memoizes (rebuild before .empty) preorder strip := by
  have hfull (value : Value F R) (hvalue : evaluation.result = .ok value) :
      Full (evaluation.keep .empty rebuild).tree.preorder := by
    simp only [Evaluation.keep, hnodes]
    refine List.forall_mem_cons.mpr ⟨fun _ => ?_, h.full value hvalue⟩
    rw [hpayload, hvalue]
    rfl
  have hroot : (evaluation.keep .empty rebuild).tree.Layer := by
    refine fun _ => ⟨?_, ?_⟩
    all_goals simp only [Evaluation.keep, hpayload]
    · cases evaluation.result with
      | error error => exact ⟨none, rfl⟩
      | ok value => exact ⟨some value, rfl⟩
    · intro hvalue
      cases hresult : evaluation.result with
      | error error =>
          rw [hresult] at hvalue
          cases hvalue
      | ok value =>
          have hall := hfull value hresult
          rwa [Evaluation.keep, hresult] at hall
  have hstrip : (evaluation.keep .empty rebuild).tree.strip = (rebuild before .empty).strip :=
    hshape _ _ _ _ h.shape
  refine ⟨hstrip, ?_, ?_, hfull⟩
  · have hempty : (rebuild before .empty).payload.hasValue = false := by
      rw [hpayload]
      rfl
    rw [Evaluation.keep, hnodes, hnodes]
    exact .cons ⟨hstrip, fun hvalue => absurd (hempty.symm.trans hvalue) Bool.false_ne_true⟩ h.later
  · rw [Evaluation.keep, hnodes]
    exact List.forall_mem_cons.mpr ⟨hroot, h.layered⟩

/-- Nodes that are not reached. -/
theorem memoizes_unreached {A : Type} {nodes : List (BoundTree F R M)} (h : ∀ inner ∈ preorders nodes, inner.Layer)
    (error : EvalError) (context : Context R M) :
    (⟨.error error, nodes, context⟩ : Evaluation F R M A (List (BoundTree F R M))).Memoizes nodes preorders
      (List.map strip) :=
  ⟨rfl, forall₂_later_refl _, h, fun _ hresult => nomatch hresult⟩

/-- A node and the others behind it. -/
theorem memoizes_cons {A B C : Type} {first : Evaluation F R M A (BoundTree F R M)}
    {rest : Evaluation F R M B (List (BoundTree F R M))} {whole : Evaluation F R M C (List (BoundTree F R M))}
    {node : BoundTree F R M} {others : List (BoundTree F R M)} (hfirst : first.Memoizes node preorder strip)
    (hrest : rest.Memoizes others preorders (List.map strip)) (htree : whole.tree = first.tree :: rest.tree)
    (hresult : ∀ value, whole.result = .ok value → (∃ head, first.result = .ok head) ∧ ∃ tail, rest.result = .ok tail) :
    whole.Memoizes (node :: others) preorders (List.map strip) := by
  have hnodes : preorders whole.tree = first.tree.preorder ++ preorders rest.tree := by rw [htree, preorders]
  refine ⟨?_, ?_, ?_, fun value hvalue => ?_⟩
  · rw [htree, List.map_cons, List.map_cons, hfirst.shape, hrest.shape]
  · rw [hnodes, preorders]
    exact List.rel_append hfirst.later hrest.later
  · rw [hnodes]
    exact List.forall_mem_append.mpr ⟨hfirst.layered, hrest.layered⟩
  · obtain ⟨⟨head, hhead⟩, tail, htail⟩ := hresult value hvalue
    rw [hnodes]
    exact List.forall_mem_append.mpr ⟨hfirst.full head hhead, hrest.full tail htail⟩

/-- Places are filled from below: a node with children gets its value behind all that its evaluation goes through. -/
theorem stepwise_memoizes (dialect : Dialect F R) :
    Stepwise dialect
      (fun (node : BoundTree F R M) _ evaluation =>
        (∀ inner ∈ node.preorder, inner.Layer) → evaluation.Memoizes node preorder strip)
      (fun children _ evaluation =>
        (∀ inner ∈ preorders children, inner.Layer) → evaluation.Memoizes children preorders (List.map strip))
      (fun nodes _ evaluation =>
        (∀ inner ∈ preorders nodes, inner.Layer) → evaluation.Memoizes nodes preorders (List.map strip)) where
  name _ _ _ h := memoizes_of_tree rfl h (List.forall_mem_singleton.mpr fun hcompound => nomatch hcompound)
  numeral _ _ _ _ h := memoizes_of_tree rfl h (List.forall_mem_singleton.mpr fun hcompound => nomatch hcompound)
  kept node _ hcompound hfilled h := by
    obtain ⟨_, -, hfull⟩ := Term.exists_value ((h node (mem_preorder node)).place hcompound) hfilled
    exact memoizes_of_tree rfl h hfull
  paren before behind hempty hinside h := by
    obtain ⟨hroot, hchild⟩ := List.forall_mem_cons.mp h
    obtain rfl := Term.eq_empty (hroot.place rfl) hempty
    exact memoizes_keep (hinside hchild) (fun child term => .paren child before behind term)
      (fun _ _ => rfl) (fun _ _ => rfl) fun _ _ _ _ hsame => congrArg (Node.paren · before behind ()) hsame
  application hrebuild hempty hinside h := by
    rw [hrebuild.preorder_eq, List.forall_mem_cons] at h
    obtain ⟨hroot, hchildren⟩ := h
    have hplace := hroot.place hrebuild.isCompound_eq
    rw [hrebuild.payload_eq] at hplace
    obtain rfl := Term.eq_empty hplace hempty
    exact memoizes_keep (hinside hchildren) _ hrebuild.payload_eq hrebuild.preorder_eq fun _ _ => hrebuild.strip_eq
  headless _ _ := ⟨rfl, .nil, List.forall_mem_nil _, fun _ _ => List.forall_mem_nil _⟩
  uncalled {_} {_} {called} {error} arguments hhead herror h := by
    obtain ⟨hcalled, harguments⟩ := List.forall_mem_append.mp h
    exact memoizes_cons (hhead hcalled) (memoizes_unreached (A := Unit) harguments error called.context) rfl
      fun _ hresult => nomatch hresult
  call {_} {_} {_} {called} {function} {given} hhead hfunction harguments h := by
    obtain ⟨hcalled, hgiven⟩ := List.forall_mem_append.mp h
    cases houtcome : given.result.bind fun values =>
        dialect.call function.operation values given.context.leave.scope with
    | error error => exact memoizes_cons (hhead hcalled) (harguments hgiven) rfl fun _ hresult => nomatch hresult
    | ok answer =>
        obtain ⟨values, hvalues, -⟩ := except_bind_eq_ok.mp houtcome
        exact memoizes_cons (hhead hcalled) (harguments hgiven) rfl fun _ _ => ⟨⟨_, hfunction⟩, values, hvalues⟩
  done _ _ := ⟨rfl, .nil, List.forall_mem_nil _, fun _ _ => List.forall_mem_nil _⟩
  broken {_} {_} {first} {error} others hnode herror h := by
    obtain ⟨hfirst, hothers⟩ := List.forall_mem_append.mp h
    exact memoizes_cons (hnode hfirst) (memoizes_unreached (A := Unit) hothers error first.context) rfl
      fun _ hresult => nomatch hresult
  further {_} {_} {_} {_} {_} {rest} hnode hvalue hothers h := by
    obtain ⟨hfirst, hrest⟩ := List.forall_mem_append.mp h
    refine memoizes_cons (hnode hfirst) (hothers hrest) rfl fun values hvalues => ⟨⟨_, hvalue⟩, ?_⟩
    cases hfound : rest.result with
    | error error =>
        rw [hfound] at hvalues
        cases hvalues
    | ok values => exact ⟨values, rfl⟩

variable (dialect : Dialect F R)

theorem evaluate_memoizes {node : BoundTree F R M} (h : ∀ inner ∈ node.preorder, inner.Layer) (context : Context R M) :
    (node.evaluate dialect context).Memoizes node preorder strip :=
  (stepwise_memoizes dialect).evaluate node context h

variable {node : BoundTree F R M} {value : Value F R}

theorem isCompound_evaluate (node : BoundTree F R M) (context : Context R M) :
    (node.evaluate dialect context).tree.isCompound = node.isCompound := by
  cases node with
  | name | numeral => rfl
  | paren _ _ _ term | row _ _ term | block _ _ _ term =>
      by_cases hempty : term.isEmpty = true
      · simp only [evaluate, if_pos hempty]
        rfl
      · simp only [evaluate, if_neg hempty]
        rfl

/-- A node with children that has a value gives it, and does nothing else. -/
theorem evaluate_of_value (hcompound : node.isCompound = true) (hvalue : node.payload = ⟨none, .thunk (some value)⟩)
    (context : Context R M) : node.evaluate dialect context = ⟨.ok value, node, context⟩ := by
  match node with
  | .name .. | .numeral .. => cases hcompound
  | .paren _ _ _ term | .row _ _ term | .block _ _ _ term =>
      obtain rfl : term = ⟨none, .thunk (some value)⟩ := hvalue
      rfl

/-- A node with children that has no value gets that of its evaluation, if this comes to one. -/
theorem payload_evaluate (hcompound : node.isCompound = true) (hempty : node.payload = .empty)
    (context : Context R M) :
    (node.evaluate dialect context).tree.payload = Term.empty.fill (node.evaluate dialect context).result := by
  match node with
  | .name .. | .numeral .. => cases hcompound
  | .paren _ _ _ term | .row _ _ term | .block _ _ _ term =>
      obtain rfl : term = .empty := hempty
      rfl

/-! ### Runs -/

/-- What is left of a tree that is evaluated in contexts, one after the other. A context may be what the evaluation
before has left, this with another channel or reading, or any other one. -/
def treeAfter (dialect : Dialect F R) (contexts : List (Context R M)) (node : BoundTree F R M) : BoundTree F R M :=
  contexts.foldl (fun node context => (node.evaluate dialect context).tree) node

/-- What a tree gives that is evaluated in contexts, one after the other: its value or an error, and what is left of
each context. -/
def answers (dialect : Dialect F R) :
    List (Context R M) → BoundTree F R M → List (Except EvalError (Value F R) × Context R M)
  | [], _ => []
  | context :: contexts, node =>
    let evaluation := node.evaluate dialect context
    (evaluation.result, evaluation.context) :: answers dialect contexts evaluation.tree

theorem isCompound_treeAfter (contexts : List (Context R M)) (node : BoundTree F R M) :
    (node.treeAfter dialect contexts).isCompound = node.isCompound := by
  induction contexts generalizing node with
  | nil => rfl
  | cons context contexts ih => exact (ih _).trans (isCompound_evaluate dialect node context)

/-- The run: nodes only get later, and stay filled from below. -/
theorem treeAfter_memoizes (contexts : List (Context R M)) (h : ∀ inner ∈ node.preorder, inner.Layer) :
    List.Forall₂ Later node.preorder (node.treeAfter dialect contexts).preorder ∧
      ∀ inner ∈ (node.treeAfter dialect contexts).preorder, inner.Layer := by
  induction contexts generalizing node with
  | nil => exact ⟨forall₂_later_refl _, h⟩
  | cons context contexts ih =>
      have hstep := evaluate_memoizes dialect h context
      obtain ⟨hlater, hlayered⟩ := ih hstep.layered
      exact ⟨forall₂_later_trans hstep.later hlater, hlayered⟩

/-- A node with children that has a value gives it in every context. -/
theorem answers_of_value (hcompound : node.isCompound = true) (hvalue : node.payload = ⟨none, .thunk (some value)⟩)
    (contexts : List (Context R M)) :
    node.answers dialect contexts = contexts.map (fun context => (.ok value, context)) ∧
      node.treeAfter dialect contexts = node := by
  induction contexts with
  | nil => exact ⟨rfl, rfl⟩
  | cons context contexts ih =>
      obtain ⟨hanswers, htree⟩ := ih
      rw [answers, treeAfter, List.foldl_cons, evaluate_of_value dialect hcompound hvalue]
      exact ⟨by rw [hanswers, List.map_cons], htree⟩

/-- A node with children that has no value at first gets that of the first evaluation that comes to one; all behind it
come to the same. -/
theorem payload_treeAfter (hcompound : node.isCompound = true) (hempty : node.payload = .empty)
    (contexts : List (Context R M)) :
    ((∀ answer ∈ node.answers dialect contexts, answer.1.isOk = false) ∧
        (node.treeAfter dialect contexts).payload = .empty) ∨
      ∃ value, (∃ context, (.ok value, context) ∈ node.answers dialect contexts) ∧
        (∀ other context, (.ok other, context) ∈ node.answers dialect contexts → other = value) ∧
        (node.treeAfter dialect contexts).payload = ⟨none, .thunk (some value)⟩ := by
  induction contexts generalizing node with
  | nil => exact Or.inl ⟨List.forall_mem_nil _, hempty⟩
  | cons context contexts ih =>
      have hlater := (isCompound_evaluate dialect node context).trans hcompound
      have hpayload := payload_evaluate dialect hcompound hempty context
      rw [answers, treeAfter, List.foldl_cons]
      cases hresult : (node.evaluate dialect context).result with
      | error error =>
          rw [hresult] at hpayload
          rcases ih hlater hpayload with ⟨hfails, hstill⟩ | ⟨value, ⟨found, hfound⟩, hunique, hvalue⟩
          · exact Or.inl ⟨List.forall_mem_cons.mpr ⟨rfl, hfails⟩, hstill⟩
          · refine Or.inr ⟨value, ⟨found, List.mem_cons_of_mem _ hfound⟩, fun other context' hmem => ?_, hvalue⟩
            rcases List.mem_cons.mp hmem with hsame | hmem
            · cases hsame
            · exact hunique other context' hmem
      | ok value =>
          rw [hresult] at hpayload
          obtain ⟨hanswers, htree⟩ := answers_of_value dialect hlater hpayload contexts
          refine Or.inr ⟨value, ⟨_, List.mem_cons_self⟩, fun other context' hmem => ?_, ?_⟩
          · rw [hanswers] at hmem
            rcases List.mem_cons.mp hmem with hsame | hmem
            · cases hsame
              rfl
            · obtain ⟨_, -, hsame⟩ := List.mem_map.mp hmem
              cases hsame
              rfl
          · exact (congrArg payload htree).trans hpayload

/-- A tree whose names were bound, to whatever they stand for, is evaluated in any contexts one after the other. From
one moment to a later one, every node stays what it is and keeps its value, if it has one. At every moment the nodes
with children that stand below one with a value have values themselves. And if the root has children, it has a value
exactly when some evaluation has come to one; all evaluations from then on give this value, and change neither their
context nor the tree. -/
theorem memoized {bindings : Bindings F R M} {tree : Tree} {program : BoundTree F R M}
    (h : bindings.bind tree = .ok program) (before behind : List (Context R M)) :
    let early := program.treeAfter dialect before
    let late := early.treeAfter dialect behind
    List.Forall₂ Later early.preorder late.preorder ∧
      (∀ node ∈ late.preorder, node.isCompound = true → node.payload.hasValue = true → Full node.preorder) ∧
      (program.isCompound = true →
        (early.payload.hasValue = true ↔ ∃ value context, (.ok value, context) ∈ program.answers dialect before) ∧
          ∀ value context, (.ok value, context) ∈ program.answers dialect before →
            early.answers dialect behind = behind.map (fun context => (.ok value, context)) ∧ late = early) := by
  have hfresh := fresh_of_bind h
  obtain ⟨-, hearly⟩ := treeAfter_memoizes dialect before (layered_of_fresh hfresh)
  obtain ⟨hlater, hlate⟩ := treeAfter_memoizes dialect behind hearly
  refine ⟨hlater, fun node hmem hnode hvalue => (hlate node hmem hnode).2 hvalue, fun hcompound => ?_⟩
  have hroot := (isCompound_treeAfter dialect before program).trans hcompound
  rcases payload_treeAfter dialect hcompound (payload_of_fresh hfresh hcompound) before with
    ⟨hfails, hempty⟩ | ⟨found, ⟨last, hfound⟩, hunique, hpayload⟩
  · have hnone (value : Value F R) (context : Context R M) : (.ok value, context) ∉ program.answers dialect before :=
      fun hmem => nomatch hfails _ hmem
    refine ⟨⟨fun hvalue => ?_, fun ⟨value, context, hmem⟩ => absurd hmem (hnone value context)⟩,
      fun value context hmem => absurd hmem (hnone value context)⟩
    rw [hempty] at hvalue
    cases hvalue
  · refine ⟨⟨fun _ => ⟨found, last, hfound⟩, fun _ => ?_⟩, fun value context hmem => ?_⟩
    · rw [hpayload]
      rfl
    · obtain rfl := hunique value context hmem
      exact answers_of_value dialect hroot hpayload behind

/-- The vocabulary, and a name that has no value as long as the memory is empty. -/
def hesitant : Bindings Operation Reading Nat :=
  ("again", .ofComputation none fun context =>
    (if context.memory = 0 then .error .unevaluated else .ok (.step .mute), context)) ::
  Vocabulary.bindings

/-- `stack (note 60) again`, which fails behind its first argument, and comes to a step in a second context. -/
theorem memoized_hesitant :
    let tree : Tree := ofRow [ofName "stack", ofParen (ofRow [ofName "note", .numeral 60 "60" ()]), ofName "again"]
    let first : Context Reading Nat := .ofScope Vocabulary.outermost 0
    let second : Context Reading Nat := ⟨⟨.number, 5⟩, [Vocabulary.outermost], 1⟩
    ∃ program, hesitant.bind tree = .ok program ∧ program.isCompound = true ∧
      (program.treeAfter Vocabulary.dialect [first]).payload.hasValue = false ∧
      ∃ value context, (.ok value, context) ∈ program.answers Vocabulary.dialect [first, second] ∧
        (program.treeAfter Vocabulary.dialect [first, second]).answers Vocabulary.dialect [first] =
          [(.ok value, first)] := by
  intro tree first second
  have hbound : (hesitant.bind tree).toOption.map (fun program => (program.isCompound,
      (program.treeAfter Vocabulary.dialect [first]).payload.hasValue,
      (program.treeAfter Vocabulary.dialect [first, second]).payload.hasValue)) = some (true, false, true) := by
    decide +kernel
  obtain ⟨program, hprogram, hfound⟩ := exists_ok_of_map hbound
  obtain ⟨hcompound, hrest⟩ := Prod.mk.inj hfound
  obtain ⟨hfirst, hsecond⟩ := Prod.mk.inj hrest
  obtain ⟨hvalue, hagain⟩ := (memoized Vocabulary.dialect hprogram [first, second] [first]).2.2 hcompound
  obtain ⟨value, context, hmem⟩ := hvalue.mp hsecond
  exact ⟨program, hprogram, hcompound, hfirst, value, context, hmem, (hagain value context hmem).1⟩

end Node

end Cadence
