import Cadence.Tree.Basic

/-! Payloads that are computed on a walk over a tree. The walk goes through the nodes as they stand in the text, each before
its children, whatever the computation at a node does: in every monad it comes to the same as the list of these nodes, gone
through once from its start. The tree stays what it is, and the payloads stand in it in the order in which they were found.
For computations with a state that may fail this says how far a walk gets. -/

namespace Cadence.Node

variable {P Q : Type}

mutual

/-- A tree without its payloads. All else is kept. -/
def bare : Node P → Tree
  | .name value _ => .name value ()
  | .numeral value digits _ => .numeral value digits ()
  | .paren child before behind _ => .paren child.bare before behind ()
  | .row children gaps _ => .row (bares children) gaps ()
  | .block children indent gaps _ => .block (bares children) indent gaps ()

def bares : List (Node P) → List Tree
  | [] => []
  | node :: nodes => node.bare :: bares nodes

end

/-- The payloads of a tree, each before those of its children. -/
def payloads (node : Node P) : List P := node.preorder.map payload

def allPayloads (nodes : List (Node P)) : List P := (preorders nodes).map payload

section

variable {m : Type → Type} [Monad m] [LawfulMonad m] (step : Node P → m Q)

/-- A node before its parts: what is found at the node comes first, and the parts are put together below it. -/
theorem map_parent {A S : Type} {node : Node P} {inner : List (Node P)} {parts : m A} {look : A → S × List Q} {shape : S}
    (h : look <$> parts = (fun found => (shape, found)) <$> inner.mapM step) (rebuild : A → Q → Node Q)
    (whole : S → Tree) (hbare : ∀ part payload, (rebuild part payload).bare = whole (look part).1)
    (hpayloads : ∀ part payload, (rebuild part payload).payloads = payload :: (look part).2) :
    (fun image => (image.bare, image.payloads)) <$> (do let payload ← step node; return rebuild (← parts) payload) =
      (fun found => (whole shape, found)) <$> (node :: inner).mapM step := by
  rw [List.mapM_cons, map_bind, map_bind]
  refine bind_congr fun payload => ?_
  calc
    _ = (fun seen => (whole seen.1, payload :: seen.2)) <$> (look <$> parts) := by simp [hbare, hpayloads]
    _ = (fun seen => (whole seen.1, payload :: seen.2)) <$> ((fun found => (shape, found)) <$> inner.mapM step) := by rw [h]
    _ = _ := by simp

mutual

theorem map_mapPayloadM (node : Node P) :
    (fun image : Node Q => (image.bare, image.payloads)) <$> node.mapPayloadM step =
      (fun found => (node.bare, found)) <$> node.preorder.mapM step := by
  match node with
  | .name .. | .numeral .. => simp [mapPayloadM, preorder, payloads, bare, payload]
  | .paren child before behind _ =>
      exact map_parent step (map_mapPayloadM child) (fun image payload => .paren image before behind payload)
        (fun tree => .paren tree before behind ()) (fun _ _ => rfl) (fun _ _ => rfl)
  | .row children gaps _ =>
      exact map_parent step (map_mapPayloadsM children) (fun images payload => .row images gaps payload)
        (fun trees => .row trees gaps ()) (fun _ _ => rfl) (fun _ _ => rfl)
  | .block children indent gaps _ =>
      exact map_parent step (map_mapPayloadsM children) (fun images payload => .block images indent gaps payload)
        (fun trees => .block trees indent gaps ()) (fun _ _ => rfl) (fun _ _ => rfl)

theorem map_mapPayloadsM (nodes : List (Node P)) :
    (fun images : List (Node Q) => (bares images, allPayloads images)) <$> mapPayloadsM step nodes =
      (fun found => (bares nodes, found)) <$> (preorders nodes).mapM step := by
  match nodes with
  | [] => simp [mapPayloadsM, preorders, bares, allPayloads]
  | node :: nodes =>
      calc
        _ = (do
              let first ← (fun image : Node Q => (image.bare, image.payloads)) <$> node.mapPayloadM step
              let others ← (fun images : List (Node Q) => (bares images, allPayloads images)) <$> mapPayloadsM step nodes
              return (first.1 :: others.1, first.2 ++ others.2)) := by
          simp [mapPayloadsM, bares, allPayloads, payloads, preorders]
        _ = (do
              let first ← (fun found => (node.bare, found)) <$> node.preorder.mapM step
              let others ← (fun found => (bares nodes, found)) <$> (preorders nodes).mapM step
              return (first.1 :: others.1, first.2 ++ others.2)) := by
          rw [map_mapPayloadM node, map_mapPayloadsM nodes]
        _ = _ := by simp [bares, preorders]

end

end

theorem bare_mapPayload (step : Node P → Q) (node : Node P) :
    (node.mapPayload step).bare = node.bare ∧ (node.mapPayload step).payloads = node.preorder.map step := by
  have hwalk : (fun image : Node Q => (image.bare, image.payloads)) <$> (node.mapPayloadM (m := Id) (pure ∘ step)) =
      (fun found => (node.bare, found)) <$> (pure (node.preorder.map step) : Id (List Q)) := by
    rw [map_mapPayloadM, ← List.mapM_pure]
    rfl
  exact Prod.mk.inj hwalk

mutual

theorem bare_tree (tree : Tree) : tree.bare = tree := by
  match tree with
  | .name .. | .numeral .. => rfl
  | .paren child _ _ _ => rw [bare, bare_tree child]
  | .row children _ _ | .block children _ _ _ => rw [bare, bares_trees children]

theorem bares_trees (trees : List Tree) : bares trees = trees := by
  match trees with
  | [] => rfl
  | tree :: trees => rw [bares, bare_tree tree, bares_trees trees]

end

theorem strip_eq_bare (node : Node P) : node.strip = node.bare := by
  rw [← bare_tree node.strip]
  exact (bare_mapPayload (fun _ => ()) node).1

theorem map_strip (nodes : List (Node P)) : nodes.map strip = bares nodes := by
  induction nodes with
  | nil => rfl
  | cons node nodes ih => rw [List.map_cons, strip_eq_bare, ih, bares]

theorem strip_tree (tree : Tree) : tree.strip = tree := (strip_eq_bare tree).trans (bare_tree tree)

theorem strip_paren (child : Node P) (before behind : String) (payload : P) :
    (paren child before behind payload).strip = .paren child.strip before behind () := rfl

theorem strip_row (children : List (Node P)) (gaps : List String) (payload : P) :
    (row children gaps payload).strip = .row (children.map strip) gaps () := by
  rw [strip_eq_bare, map_strip, bare]

theorem strip_block (children : List (Node P)) (indent : Nat) (gaps : List String) (payload : P) :
    (block children indent gaps payload).strip = .block (children.map strip) indent gaps () := by
  rw [strip_eq_bare, map_strip, bare]

/-! ### Walks that may fail -/

/-- Other payloads leave the tree as it is. -/
theorem strip_of_mapPayloadM {ε : Type} {step : Node P → Except ε Q} {node : Node P} {image : Node Q}
    (h : node.mapPayloadM step = .ok image) : image.strip = node.strip := by
  have hwalk := map_mapPayloadM step node
  rw [h] at hwalk
  cases hfound : node.preorder.mapM step with
  | error error =>
      rw [hfound] at hwalk
      cases hwalk
  | ok found =>
      rw [hfound] at hwalk
      rw [strip_eq_bare, strip_eq_bare]
      exact congrArg Prod.fst (Except.ok.inj hwalk)

section

variable {σ ε : Type}

/-- A computation with a state that may fail, begun in one state. -/
def ran {A : Type} (computation : ExceptT ε (StateM σ) A) (state : σ) : Except ε A × σ :=
  (computation.run.run state).run

section

variable {A B : Type} {first : ExceptT ε (StateM σ) A} {next : A → ExceptT ε (StateM σ) B} {state middle : σ}

theorem ran_map (f : A → B) : ran (f <$> first) state = ((ran first state).1.map f, (ran first state).2) := by
  simp [ran]

theorem ran_bind_of_ok {value : A} (h : ran first state = (.ok value, middle)) :
    ran (first >>= next) state = ran (next value) middle := by
  have hfirst : first.run.run state = (.ok value, middle) := h
  rw [ran, ExceptT.run_bind, StateT.run_bind, hfirst]
  rfl

theorem ran_bind_of_error {error : ε} (h : ran first state = (.error error, middle)) :
    ran (first >>= next) state = (.error error, middle) := by
  have hfirst : first.run.run state = (.error error, middle) := h
  rw [ran, ExceptT.run_bind, StateT.run_bind, hfirst]
  rfl

end

/-- A step that may fail and that changes a state, as a computation. -/
def stateful (step : Node P → σ → Except ε Q × σ) (node : Node P) : ExceptT ε (StateM σ) Q :=
  .mk fun state => step node state

/-- A walk over a tree on which each payload is computed by a step, from the state that the step before has left. -/
def traverse (step : Node P → σ → Except ε Q × σ) (node : Node P) (state : σ) : Except ε (Node Q) × σ :=
  ran (node.mapPayloadM (stateful step)) state

/-- Calls of a step on one node after the other, all of which succeed: what they give, and the state behind them. -/
inductive Calls (step : Node P → σ → Except ε Q × σ) : σ → List (Node P) → List Q → σ → Prop where
  | nil (state : σ) : Calls step state [] [] state
  | cons {state middle last : σ} {node : Node P} {nodes : List (Node P)} {payload : Q} {found : List Q}
      (first : step node state = (.ok payload, middle)) (others : Calls step middle nodes found last) :
      Calls step state (node :: nodes) (payload :: found) last

variable {step : Node P → σ → Except ε Q × σ}

theorem ran_stateful (node : Node P) (state : σ) : ran (stateful step node) state = step node state := rfl

/-- Calls go on to the last node, or up to the first on which the step fails. -/
theorem calls_or_failure (step : Node P → σ → Except ε Q × σ) (nodes : List (Node P)) (state : σ) :
    (∃ found last, Calls step state nodes found last) ∨
      ∃ before failing behind found middle error last, nodes = before ++ failing :: behind ∧
        Calls step state before found middle ∧ step failing middle = (.error error, last) := by
  induction nodes generalizing state with
  | nil => exact Or.inl ⟨[], state, .nil state⟩
  | cons node nodes ih =>
      rcases hnode : step node state with ⟨error | payload, middle⟩
      · exact Or.inr ⟨[], node, nodes, [], state, error, middle, rfl, .nil state, hnode⟩
      · rcases ih middle with ⟨found, last, hcalls⟩ |
          ⟨before, failing, behind, found, reached, error, last, rfl, hcalls, hfailing⟩
        · exact Or.inl ⟨payload :: found, last, .cons hnode hcalls⟩
        · exact Or.inr ⟨node :: before, failing, behind, payload :: found, reached, error, last, rfl,
            .cons hnode hcalls, hfailing⟩

theorem ran_mapM_of_calls {state last : σ} {nodes : List (Node P)} {found : List Q} (h : Calls step state nodes found last) :
    ran (nodes.mapM (stateful step)) state = (.ok found, last) := by
  induction h with
  | nil state => rfl
  | cons hfirst _ ih =>
      rw [List.mapM_cons, ran_bind_of_ok ((ran_stateful _ _).trans hfirst), ran_bind_of_ok ih]
      rfl

theorem ran_mapM_of_failure {state middle last : σ} {before behind : List (Node P)} {failing : Node P} {found : List Q}
    {error : ε} (h : Calls step state before found middle) (hfailing : step failing middle = (.error error, last)) :
    ran ((before ++ failing :: behind).mapM (stateful step)) state = (.error error, last) := by
  induction h with
  | nil state =>
      rw [List.nil_append, List.mapM_cons]
      exact ran_bind_of_error hfailing
  | cons hfirst _ ih =>
      rw [List.cons_append, List.mapM_cons, ran_bind_of_ok ((ran_stateful _ _).trans hfirst)]
      exact ran_bind_of_error (ih hfailing)

/-- A walk over a tree comes to what the list of its nodes comes to. -/
theorem traverse_eq (step : Node P → σ → Except ε Q × σ) (node : Node P) (state : σ) :
    (traverse step node state).1.map (fun image => (image.bare, image.payloads)) =
        (ran (node.preorder.mapM (stateful step)) state).1.map (fun found => (node.bare, found)) ∧
      (traverse step node state).2 = (ran (node.preorder.mapM (stateful step)) state).2 := by
  have hwalk := congrArg (fun walk => ran walk state) (map_mapPayloadM (stateful step) node)
  simp only [ran_map] at hwalk
  exact Prod.mk.inj hwalk

theorem traverse_of_calls {node : Node P} {state last : σ} {found : List Q}
    (h : Calls step state node.preorder found last) :
    ∃ image, traverse step node state = (.ok image, last) ∧ image.bare = node.bare ∧ image.payloads = found := by
  obtain ⟨hresult, hlast⟩ := traverse_eq step node state
  rw [ran_mapM_of_calls h] at hresult hlast
  rcases htraverse : traverse step node state with ⟨error | image, after⟩
  · rw [htraverse] at hresult
    cases hresult
  · rw [htraverse] at hresult hlast
    obtain ⟨hbare, hpayloads⟩ := Prod.mk.inj (Except.ok.inj hresult)
    obtain rfl : after = last := hlast
    exact ⟨image, rfl, hbare, hpayloads⟩

theorem traverse_of_failure {node failing : Node P} {before behind : List (Node P)} {state middle last : σ}
    {found : List Q} {error : ε} (hnodes : node.preorder = before ++ failing :: behind)
    (h : Calls step state before found middle) (hfailing : step failing middle = (.error error, last)) :
    traverse step node state = (.error error, last) := by
  obtain ⟨hresult, hlast⟩ := traverse_eq step node state
  rw [hnodes, ran_mapM_of_failure h hfailing] at hresult hlast
  rcases htraverse : traverse step node state with ⟨found | image, after⟩
  · rw [htraverse] at hresult hlast
    obtain rfl : after = last := hlast
    rw [Except.error.inj hresult]
  · rw [htraverse] at hresult
    cases hresult

/-- A step that also writes down the nodes that it is called on. -/
def noted (step : Node P → σ → Except ε Q × σ) (node : Node P) : σ × List (Node P) → Except ε Q × σ × List (Node P)
  | (state, visited) => ((step node state).1, (step node state).2, visited ++ [node])

theorem Calls.noted {state last : σ} {nodes : List (Node P)} {found : List Q} (h : Calls step state nodes found last)
    (visited : List (Node P)) : Calls (noted step) (state, visited) nodes found (last, visited ++ nodes) := by
  induction h generalizing visited with
  | nil state =>
      rw [List.append_nil]
      exact .nil _
  | @cons _ _ _ node nodes _ _ hfirst _ ih =>
      have hothers := ih (visited ++ [node])
      rw [List.append_assoc, List.singleton_append] at hothers
      refine .cons ?_ hothers
      simp only [Node.noted, hfirst]

/-- What a walk over a tree comes to, with the nodes that it visits. -/
inductive Walk (step : Node P → σ → Except ε Q × σ) (node : Node P) (state : σ) :
    List (Node P) → Except ε (Node Q) × σ → Prop where
  /-- The step succeeds on every node. The tree is the same but for its payloads, which stand in it as they were found. -/
  | whole {image : Node Q} {last : σ} (calls : Calls step state node.preorder image.payloads last)
      (bare : image.bare = node.bare) (strip : image.strip = node.strip) :
      Walk step node state node.preorder (.ok image, last)
  /-- The step fails on a node, and is called on no other behind it. -/
  | brokenOff {before behind : List (Node P)} {failing : Node P} {found : List Q} {middle last : σ} {error : ε}
      (nodes : node.preorder = before ++ failing :: behind) (calls : Calls step state before found middle)
      (failure : step failing middle = (.error error, last)) :
      Walk step node state (before ++ [failing]) (.error error, last)

/-- A walk over a tree, with any state and any step that may fail, visits the nodes as they stand in the text, each before its
children and the children from left to right, and calls the step once on each of them. If the step fails, the walk fails
in the same way and visits no more nodes. If not, it visits all of them, the tree that it gives has the same nodes with the
same texts, gaps and columns, and the payloads in it are, in the same order, what the calls have given. -/
theorem traverse_preorder (step : Node P → σ → Except ε Q × σ) (node : Node P) (state : σ) :
    ∃ visited, Walk step node state visited (traverse step node state) ∧
      (traverse (noted step) node (state, [])).2 = ((traverse step node state).2, visited) := by
  rcases calls_or_failure step node.preorder state with ⟨found, last, hcalls⟩ |
    ⟨before, failing, behind, found, middle, error, last, hnodes, hcalls, hfailing⟩
  · obtain ⟨image, himage, hbare, rfl⟩ := traverse_of_calls hcalls
    obtain ⟨noted, hnoted, -, -⟩ := traverse_of_calls (hcalls.noted [])
    refine ⟨node.preorder, ?_, ?_⟩
    · rw [himage]
      exact .whole hcalls hbare (by rw [strip_eq_bare, strip_eq_bare, hbare])
    · rw [hnoted, himage, List.nil_append]
  · have hnoted := hcalls.noted []
    have hlast : noted step failing (middle, [] ++ before) = (.error error, last, before ++ [failing]) := by
      simp only [noted, hfailing, List.nil_append]
    rw [traverse_of_failure hnodes hcalls hfailing, traverse_of_failure hnodes hnoted hlast]
    exact ⟨before ++ [failing], .brokenOff hnodes hcalls hfailing, rfl⟩

/-- Nodes are numbered up to a limit. -/
example :
    let number (limit : Nat) (_ : Tree) (count : Nat) : Except String Nat × Nat :=
      (if count < limit then .ok count else .error "too many", count + 1)
    let tree := ofRow [ofName "f", ofParen (ofBlock [ofName "g", ofName "x"] 2), ofName "y"]
    ((traverse (number 7) tree 0).1.map payloads, (traverse (number 7) tree 0).2) = (.ok [0, 1, 2, 3, 4, 5, 6], 7) ∧
      ((traverse (number 4) tree 0).1.map payloads, (traverse (number 4) tree 0).2) = (.error "too many", 5) :=
  ⟨rfl, rfl⟩

end

end Cadence.Node
