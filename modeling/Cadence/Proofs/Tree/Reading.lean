import Cadence.Proofs.Tree.Gap
import Cadence.Proofs.Tree.WellFormed

/-! What is read. Every rule moves over the text of the tree that it gives, and this is a tree of the grammar;
the rules for a depth inherit both from the rules for the depth below. A document that was read is
therefore written as the text that it was read from. -/

namespace Cadence

namespace Grammar

open Lexeme Cadence.Parser

variable {cursor after : Cursor} {tree : Tree}

/-- What an enclosing rule may rely on. Whether an expression is indented as it should be is known only
inside of a block. -/
structure Rules.Sound (rules : Rules) : Prop where
  line : ∀ {cursor after : Cursor} {tree : Tree}, rules.line cursor = (.ok tree, after) →
    cursor.Moved after tree.written.toList ∧ tree.isLine = true ∧ ∀ column, tree.WellFormed column
  expression : ∀ {cursor after : Cursor} {tree : Tree}, rules.expression cursor = (.ok tree, after) →
    cursor.Moved after tree.written.toList ∧
      ∀ column outer, cursor.indents = column :: outer → tree.WellFormed column

/-- What an atom promises: it is the longest one at its place. -/
structure AtomRead (cursor after : Cursor) (tree : Tree) : Prop where
  moved : cursor.Moved after tree.written.toList
  isAtom : tree.isAtom = true
  wellFormed : ∀ column, tree.WellFormed column
  stops : ∀ character ∈ after.rest.head?, tree.goesOn character = false

theorem AtomRead.of_restore {failed : Cursor} (h : AtomRead (failed.restore cursor) after tree) :
    AtomRead cursor after tree :=
  ⟨h.moved.of_restore, h.isAtom, h.wellFormed, h.stops⟩

theorem name_eq_ok (h : name cursor = (.ok tree, after)) : AtomRead cursor after tree := by
  obtain ⟨value, last, hvalue, hpure⟩ := bind_eq_ok.mp h
  obtain ⟨rfl, rfl⟩ := pure_eq_ok.mp hpure
  obtain ⟨count, hcount, htext, hrest, hmoved⟩ := lexeme_eq_ok hvalue
  obtain ⟨hname, hstops⟩ := isName_of_name hcount
  rw [← htext] at hname
  rw [← hrest] at hstops
  exact ⟨hmoved, rfl, fun _ => hname, hstops⟩

theorem numeral_eq_ok (h : numeral cursor = (.ok tree, after)) : AtomRead cursor after tree := by
  obtain ⟨digits, last, hdigits, hvalue⟩ := bind_eq_ok.mp h
  obtain ⟨count, hcount, htext, hrest, hmoved⟩ := lexeme_eq_ok hdigits
  cases hdecimal : decimal? digits.toList with
  | none =>
      rw [hdecimal] at hvalue
      exact absurd hvalue (fail_ne_ok _ _)
  | some decimal =>
      rw [hdecimal] at hvalue
      obtain ⟨rfl, rfl⟩ := pure_eq_ok.mp hvalue
      rw [htext] at hdecimal
      obtain ⟨hdenotes, hstops⟩ := denotes_of_number hcount hdecimal
      rw [← htext, ← hrest] at hstops
      rw [← htext] at hdenotes
      exact ⟨hmoved, rfl, fun _ => ⟨decimal, hdenotes, rfl⟩, hstops⟩

variable {inner : Rules}

theorem paren_eq_ok (hinner : inner.Sound) (h : paren inner cursor = (.ok tree, after)) :
    AtomRead cursor after tree := by
  obtain ⟨opening, first, hopening, hfirst⟩ := bind_eq_ok.mp h
  obtain ⟨before, second, hbefore, hsecond⟩ := bind_eq_ok.mp hfirst
  obtain ⟨child, third, hchild, hthird⟩ := bind_eq_ok.mp hsecond
  obtain ⟨behind, fourth, hbehind, hfourth⟩ := bind_eq_ok.mp hthird
  obtain ⟨closing, fifth, hclosing, hpure⟩ := bind_eq_ok.mp hfourth
  obtain ⟨rfl, rfl⟩ := pure_eq_ok.mp hpure
  obtain ⟨hmovedBefore, hspacesBefore⟩ := optionalSpaces_eq_ok hbefore
  obtain ⟨hmovedChild, hline, hwellFormed⟩ := hinner.line hchild
  obtain ⟨hmovedBehind, hspacesBehind⟩ := optionalSpaces_eq_ok hbehind
  have hmoved := ((((moved_of_literal hopening).trans hmovedBefore).trans hmovedChild).trans
    hmovedBehind).trans (moved_of_literal hclosing)
  refine ⟨?_, rfl, fun column => ⟨hspacesBefore, hspacesBehind, hline, hwellFormed column⟩, fun _ _ => rfl⟩
  simpa [Node.written, List.append_assoc] using hmoved

theorem atom_eq_ok (hinner : inner.Sound) (h : atom inner cursor = (.ok tree, after)) :
    AtomRead cursor after tree := by
  obtain ⟨option, hoption, failed, hread⟩ := firstOf_eq_ok h
  simp only [List.mem_cons, List.not_mem_nil, or_false] at hoption
  rcases hoption with rfl | rfl | rfl
  · exact (paren_eq_ok hinner hread).of_restore
  · exact (name_eq_ok hread).of_restore
  · exact (numeral_eq_ok hread).of_restore

theorem rowArgument_eq_ok (hinner : inner.Sound) {gap : String}
    (h : rowArgument inner cursor = (.ok (gap, tree), after)) :
    ∃ middle, cursor.Moved middle gap.toList ∧ IsSpaces gap.toList ∧ AtomRead middle after tree := by
  obtain ⟨gap', middle, hgap, hbehind⟩ := bind_eq_ok.mp h
  obtain ⟨tree', last, hatom, hpure⟩ := bind_eq_ok.mp hbehind
  obtain ⟨hsame, rfl⟩ := pure_eq_ok.mp hpure
  cases hsame
  obtain ⟨hmoved, hspaces⟩ := optionalSpaces_eq_ok hgap
  exact ⟨middle, hmoved, hspaces, atom_eq_ok hinner hatom⟩

/-- The children of a row behind one that does not go on. -/
theorem rowArguments_chain (hinner : inner.Sound) {items : List (String × Tree)} {previous : Tree}
    (h : Chain (rowArgument inner) cursor items after)
    (hprevious : ∀ character ∈ cursor.rest.head?, previous.goesOn character = false) :
    cursor.Moved after (Node.writtenRow (items.map (·.2)) (items.map (·.1))).toList ∧
      Node.Spaced (previous :: items.map (·.2)) (items.map (·.1)) ∧
      ∀ child ∈ items.map (·.2), child.isAtom = true ∧ ∀ column, child.WellFormed column := by
  induction h generalizing previous with
  | nil cursor => exact ⟨Cursor.Moved.refl cursor, trivial, by simp⟩
  | @cons cursor middle last item items hfirst _ ih =>
      obtain ⟨gap, child⟩ := item
      obtain ⟨between, hgap, hspaces, hchild⟩ := rowArgument_eq_ok hinner hfirst
      obtain ⟨hmoved, hspaced, hothers⟩ := ih hchild.stops
      refine ⟨?_, ⟨hspaces, ?_, hspaced⟩, ?_⟩
      · have hwhole := (hgap.trans hchild.moved).trans hmoved
        simpa [Node.writtenRow, List.append_assoc] using hwhole
      · -- without a gap the child's text is what the one before it did not go on with
        rintro rfl character hhead
        refine hprevious character ?_
        obtain ⟨first, rest, hwritten, -⟩ := (hchild.wellFormed 0).starts
        rw [hwritten] at hhead
        rw [hgap.rest, hchild.moved.rest, hwritten]
        exact hhead
      · rw [List.map_cons, List.forall_mem_cons]
        exact ⟨⟨hchild.isAtom, hchild.wellFormed⟩, hothers⟩

theorem row_eq_ok (hinner : inner.Sound) (h : row inner cursor = (.ok tree, after)) :
    cursor.Moved after tree.written.toList ∧ tree.isLine = true ∧ ∀ column, tree.WellFormed column := by
  obtain ⟨head, first, hhead, hbehind⟩ := bind_eq_ok.mp h
  obtain ⟨argument, second, hargument, hothers⟩ := bind_eq_ok.mp hbehind
  obtain ⟨others, third, hmany, hpure⟩ := bind_eq_ok.mp hothers
  obtain ⟨last, failed, hchain, rfl⟩ := chain_of_many hmany
  obtain ⟨rfl, rfl⟩ := pure_eq_ok.mp hpure
  have hread := atom_eq_ok hinner hhead
  obtain ⟨hmoved, hspaced, hchildren⟩ := rowArguments_chain hinner (.cons hargument hchain) hread.stops
  have hwhole := (hread.moved.trans hmoved).trans (Cursor.Moved.restore failed last)
  refine ⟨by simpa [Node.written] using hwhole, rfl, fun column => ⟨by simp, ?_, hspaced, ?_⟩⟩
  · exact List.forall_mem_cons.mpr ⟨hread.isAtom, fun child hmem => (hchildren child hmem).1⟩
  · exact Node.allWellFormed_iff.mpr (List.forall_mem_cons.mpr
      ⟨hread.wellFormed column, fun child hmem => (hchildren child hmem).2 column⟩)

theorem line_eq_ok (hinner : inner.Sound) (h : line inner cursor = (.ok tree, after)) :
    cursor.Moved after tree.written.toList ∧ tree.isLine = true ∧ ∀ column, tree.WellFormed column := by
  obtain ⟨option, hoption, failed, hread⟩ := firstOf_eq_ok h
  simp only [List.mem_cons, List.not_mem_nil, or_false] at hoption
  rcases hoption with rfl | rfl
  · obtain ⟨hmoved, hline, hwellFormed⟩ := row_eq_ok hinner hread
    exact ⟨hmoved.of_restore, hline, hwellFormed⟩
  · have hatom := (atom_eq_ok hinner hread).of_restore
    exact ⟨hatom.moved, Node.isLine_of_isAtom hatom.isAtom, hatom.wellFormed⟩

/-- The arguments of a block behind the first one. -/
theorem blockArguments_chain (hinner : inner.Sound) {items : List (String × Tree)} {column : Nat}
    {outer : List Nat} (h : Chain (blockArgument inner) cursor items after)
    (hindents : cursor.indents = column :: outer) :
    cursor.Moved after (Node.writtenBlock (items.map (·.2)) column (items.map (·.1))).toList ∧
      (∀ gap ∈ items.map (·.1), IsGap gap.toList) ∧
      Node.AllWellFormed column (items.map (·.2)) := by
  induction h with
  | nil cursor => exact ⟨Cursor.Moved.refl cursor, by simp, trivial⟩
  | @cons cursor middle last item items hfirst _ ih =>
      obtain ⟨text, between, hgap, hbehind⟩ := bind_eq_ok.mp hfirst
      obtain ⟨child, behind, hchild, hpure⟩ := bind_eq_ok.mp hbehind
      obtain ⟨rfl, rfl⟩ := pure_eq_ok.mp hpure
      obtain ⟨column', outer', read, hindents', hread, rfl, rfl⟩ := innerGap_eq_ok hgap
      obtain ⟨hmovedGap, hisGap⟩ := gap_eq_ok hread
      obtain ⟨hmovedChild, hwellFormed⟩ := hinner.expression hchild
      obtain ⟨rfl, rfl⟩ := List.cons.inj (hindents'.symm.trans hindents)
      have hbetween := hmovedGap.indents.trans hindents
      obtain ⟨hmoved, hgaps, hchildren⟩ := ih (hmovedChild.indents.trans hbetween)
      refine ⟨?_, List.forall_mem_cons.mpr ⟨hisGap, hgaps⟩, hwellFormed _ _ hbetween, hchildren⟩
      have hwhole := (hmovedGap.trans hmovedChild).trans hmoved
      simpa [Node.writtenBlock, toList_indentation, List.append_assoc] using hwhole

theorem block_eq_ok (hinner : inner.Sound) (h : block inner cursor = (.ok tree, after)) :
    cursor.Moved after tree.written.toList ∧
      ∀ column outer, cursor.indents = column :: outer → tree.WellFormed column := by
  obtain ⟨head, first, hhead, hbehind⟩ := bind_eq_ok.mp h
  obtain ⟨read, second, hgap, harguments⟩ := bind_eq_ok.mp hbehind
  obtain ⟨argument, third, hargument, hothers⟩ := bind_eq_ok.mp harguments
  obtain ⟨others, fourth, hmany, hclosing⟩ := bind_eq_ok.mp hothers
  obtain ⟨_, fifth, hclose, hpure⟩ := bind_eq_ok.mp hclosing
  obtain ⟨last, failed, hchain, rfl⟩ := chain_of_many hmany
  obtain ⟨rfl, rfl⟩ := pure_eq_ok.mp hpure
  obtain ⟨hmovedHead, hline, hwellFormedHead⟩ := line_eq_ok hinner hhead
  obtain ⟨enclosing, outer, middle, hindents, hindent, hread, rfl⟩ := openingGap_eq_ok hgap
  obtain ⟨hmovedGap, hisGap⟩ := gap_eq_ok hread
  obtain ⟨hmovedArgument, hwellFormed⟩ := hinner.expression hargument
  obtain ⟨hmoved, hgaps, hchildren⟩ := blockArguments_chain hinner hchain hmovedArgument.indents
  have hinside := (hmovedArgument.trans hmoved).trans (Cursor.Moved.restore failed last)
  obtain ⟨column', outer', hlast, rfl⟩ := closeBlock_eq_ok hclose
  have hwhole := (hmovedHead.trans hmovedGap).trans (hinside.inBlock hlast)
  refine ⟨?_, fun column outer' hcursor => ?_⟩
  · simpa [Node.written, Node.writtenBlock, toList_indentation, List.append_assoc] using hwhole
  · rw [hmovedHead.indents, hcursor] at hindents
    obtain ⟨rfl, rfl⟩ := List.cons.inj hindents
    exact ⟨hindent, by simp, by simp, List.forall_mem_cons.mpr ⟨hisGap, hgaps⟩, hline,
      hwellFormedHead column, hwellFormed _ _ rfl, hchildren⟩

theorem expression_eq_ok (hinner : inner.Sound) (h : expression inner cursor = (.ok tree, after)) :
    cursor.Moved after tree.written.toList ∧
      ∀ column outer, cursor.indents = column :: outer → tree.WellFormed column := by
  obtain ⟨option, hoption, failed, hread⟩ := firstOf_eq_ok h
  simp only [List.mem_cons, List.not_mem_nil, or_false] at hoption
  rcases hoption with rfl | rfl
  · obtain ⟨hmoved, hwellFormed⟩ := block_eq_ok hinner hread
    exact ⟨hmoved.of_restore, hwellFormed⟩
  · obtain ⟨hmoved, -, hwellFormed⟩ := line_eq_ok hinner hread
    exact ⟨hmoved.of_restore, fun column _ _ => hwellFormed column⟩

theorem sound_rules (depth : Nat) : (rules depth).Sound := by
  induction depth with
  | zero => exact ⟨fun h => absurd h (fail_ne_ok _ _), fun h => absurd h (fail_ne_ok _ _)⟩
  | succ depth ih => exact ⟨line_eq_ok ih, expression_eq_ok ih⟩

/-! ### Documents -/

theorem program_eq_ok (hinner : inner.Sound) (hcursor : cursor.indents = [0])
    (h : program inner cursor = (.ok tree, after)) (trailing : String) :
    tree.WellFormedProgram ∧ ∃ text : List Char, cursor.Moved after text ∧
      (⟨tree, trailing⟩ : Document Unit).writtenProgram.toList = text ++ trailing.toList := by
  obtain ⟨leading, first, hleading, hbehind⟩ := bind_eq_ok.mp h
  obtain ⟨child, second, hchild, hothers⟩ := bind_eq_ok.mp hbehind
  obtain ⟨others, third, hmany, hpure⟩ := bind_eq_ok.mp hothers
  obtain ⟨last, failed, hchain, rfl⟩ := chain_of_many hmany
  obtain ⟨rfl, rfl⟩ := pure_eq_ok.mp hpure
  obtain ⟨hmovedLeading, hlines⟩ := blankLines_eq_ok hleading
  obtain ⟨hmovedChild, hwellFormed⟩ := expression_eq_ok hinner hchild
  have hfirst := hmovedLeading.indents.trans hcursor
  obtain ⟨hmoved, hgaps, hchildren⟩ :=
    blockArguments_chain hinner hchain (hmovedChild.indents.trans hfirst)
  refine ⟨⟨rfl, rfl, hlines, by simp, hgaps, hwellFormed 0 [] hfirst, hchildren⟩, _,
    ((hmovedLeading.trans hmovedChild).trans hmoved).trans (Cursor.Moved.restore failed last), ?_⟩
  simp [Document.writtenProgram, List.append_assoc]

theorem ending_eq_ok {trailing : String} (h : ending cursor = (.ok trailing, after)) :
    cursor.rest = trailing.toList ∧ BlankRun trailing.toList := by
  obtain ⟨text, last, htext, hend⟩ := bind_eq_ok.mp h
  obtain ⟨count, hcount, hread, -, hmoved⟩ := lexeme_eq_ok htext
  split at hend
  case isTrue hfinished =>
    obtain ⟨hsame, -⟩ := Prod.mk.inj hend
    cases hsame
    cases hcount
    rw [hmoved.rest, List.isEmpty_iff.mp hfinished, List.append_nil]
    exact ⟨rfl, hread ▸ blankRun_take cursor.rest⟩
  case isFalse =>
    split at hend
    · split at hend
      · cases congrArg Prod.fst hend
      · exact absurd hend (fail_ne_ok _ _)
    · exact absurd hend (fail_ne_ok _ _)

/-- A document that was read: its rule succeeded from the start of the text, and what that left is the
trailing text. -/
theorem readDocument_eq_ok {rule : Rules → Parser Tree} {text : String} {document : Document Unit}
    (h : readDocument rule text = .ok document) :
    ∃ after, rule (rules (text.toList.length + 1)) (.ofText text [0]) = (.ok document.tree, after) ∧
      after.rest = document.trailing.toList ∧ BlankRun document.trailing.toList := by
  rw [readDocument] at h
  split at h
  case h_1 tree after hrule =>
    cases hending : ending after with
    | mk outcome last =>
        rw [hending] at h
        cases outcome with
        | error error => cases h
        | ok trailing =>
            cases h
            exact ⟨after, hrule, ending_eq_ok hending⟩
  case h_2 => cases h

theorem readExpression_eq_ok {text : String} {document : Document Unit}
    (h : readExpression text = .ok document) : document.WellFormed ∧ document.written = text := by
  obtain ⟨after, hrule, hrest, hrun⟩ := readDocument_eq_ok h
  obtain ⟨hmoved, hwellFormed⟩ := expression_eq_ok (sound_rules _) hrule
  refine ⟨⟨hwellFormed 0 [] rfl, hrun⟩, ?_⟩
  rw [← String.toList_inj, Document.written, String.toList_append, ← hrest]
  exact hmoved.rest.symm

theorem readProgram_eq_ok {text : String} {document : Document Unit}
    (h : readProgram text = .ok document) :
    document.WellFormedProgram ∧ document.writtenProgram = text := by
  obtain ⟨after, hrule, hrest, hrun⟩ := readDocument_eq_ok h
  obtain ⟨hwellFormed, written, hmoved, hwritten⟩ :=
    program_eq_ok (sound_rules _) rfl hrule document.trailing
  refine ⟨⟨hwellFormed, hrun⟩, ?_⟩
  rw [← String.toList_inj, hwritten, ← hrest]
  exact hmoved.rest.symm

/-- Reading loses nothing. -/
theorem written_of_read (text : String) :
    (∀ document, readExpression text = .ok document → document.written = text) ∧
      ∀ document, readProgram text = .ok document → document.writtenProgram = text :=
  ⟨fun _ hread => (readExpression_eq_ok hread).2, fun _ hread => (readProgram_eq_ok hread).2⟩

/-- An expression with a good deal of text between its tokens, and little between its numerals. -/
def looseText : String := "alt  # odd\n   1.5.5 (  i 2. )\n# inside\n\u2003\n   s \n  # end"

theorem written_of_read_loose :
    (∃ document, readExpression looseText = .ok document ∧ document.written = looseText) ∧
      ∃ document, readProgram ("# start\n\t\n" ++ looseText) = .ok document ∧
        document.writtenProgram = "# start\n\t\n" ++ looseText := by
  have hexpression : (readExpression looseText).toOption.map (fun _ => ()) = some () := by decide +kernel
  have hprogram : (readProgram ("# start\n\t\n" ++ looseText)).toOption.map (fun _ => ()) = some () := by
    decide +kernel
  obtain ⟨expression, hexpression, -⟩ := exists_ok_of_map hexpression
  obtain ⟨program, hprogram, -⟩ := exists_ok_of_map hprogram
  exact ⟨⟨expression, hexpression, (written_of_read looseText).1 expression hexpression⟩,
    ⟨program, hprogram, (written_of_read _).2 program hprogram⟩⟩

end Grammar

end Cadence
