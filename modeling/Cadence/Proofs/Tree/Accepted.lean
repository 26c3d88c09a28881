import Cadence.Proofs.Tree.Reading

/-! What will be read. The text of every tree of the grammar reads as that tree. Every greedy rule has to
stop in time: an atom before a character that does not go on with it, a row where the line ends, a block
where no line follows at its column. The rules for a depth accept all trees whose text is no longer. -/

namespace Cadence

/-- Two lists of one length are the two sides of a list of pairs. -/
theorem exists_pairs {α β : Type} {first : List α} {second : List β} (h : first.length = second.length) :
    ∃ items : List (α × β), items.map (·.1) = first ∧ items.map (·.2) = second :=
  ⟨first.zip second, List.map_fst_zip (Nat.le_of_eq h), List.map_snd_zip (Nat.le_of_eq h.symm)⟩

namespace Grammar

open Lexeme Cadence.Parser

variable {tree : Tree} {column bound : Nat} {tail rest : List Char} {indents outer : List Nat}

/-- What an enclosing rule may rely on. -/
structure Rules.Complete (rules : Rules) (bound : Nat) : Prop where
  line : ∀ {tree : Tree} {column : Nat} {tail : List Char} {indents : List Nat}, tree.isLine = true →
    tree.WellFormed column → tree.written.toList.length ≤ bound → EndsLine tail →
      rules.line.Gives ⟨tree.written.toList ++ tail, indents⟩ tree ⟨tail, indents⟩
  expression : ∀ {tree : Tree} {column : Nat} {tail : List Char} {outer : List Nat},
    tree.WellFormed column → tree.written.toList.length ≤ bound → Stops (column + 1) tail →
      rules.expression.Gives ⟨tree.written.toList ++ tail, column :: outer⟩ tree ⟨tail, column :: outer⟩
  none : ∀ {rest : List Char} {indents : List Nat}, NoAtom rest →
    rules.expression.Refuses ⟨rest, indents⟩

section Atoms

variable (inner : Rules)

theorem refuses_paren (h : '(' ∉ rest.head?) : (paren inner).Refuses ⟨rest, indents⟩ := by
  refine (refuses_literal (fun hprefix => h ?_) indents).bind
  obtain ⟨behind, rfl⟩ := hprefix
  rfl

theorem refuses_atom (h : NoAtom rest) : (atom inner).Refuses ⟨rest, indents⟩ := by
  have hparen : (paren inner).Refuses ⟨rest, indents⟩ :=
    refuses_paren inner fun hhead => absurd (h '(' hhead) (by decide)
  have hname : Grammar.name.Refuses ⟨rest, indents⟩ := by
    refine (refuses_lexeme _ (name_eq_none fun character hhead => ?_) indents).bind
    rw [Bool.eq_false_iff]
    intro halpha
    have hstart := h character hhead
    rw [startsAtom_of_isAlpha halpha] at hstart
    cases hstart
  have hnumeral : numeral.Refuses ⟨rest, indents⟩ :=
    (refuses_lexeme _ (number_eq_none h) indents).bind
  exact hparen.firstOf_cons (hname.firstOf_cons (hnumeral.firstOf_cons (refuses_firstOf_nil _)))

theorem gives_name {value : String} (h : IsName value.toList)
    (hend : ∀ character ∈ tail.head?, character.isAlphanum = false) :
    (atom inner).Gives ⟨value.toList ++ tail, indents⟩ (.name value ()) ⟨tail, indents⟩ := by
  have hparen : '(' ∉ (value.toList ++ tail).head? := by
    obtain ⟨first, rest, hvalue, hfirst, -⟩ := h
    rw [hvalue]
    rintro hhead
    cases hhead
    exact absurd hfirst (by decide)
  refine (refuses_paren inner hparen).firstOf_gives (Gives.firstOf_cons ?_ _)
  exact (gives_lexeme _ (name_of_isName h hend) indents).bind (gives_pure _ _)

theorem gives_numeral {digits : String} {decimal : Decimal} (h : Denotes digits.toList decimal)
    (hend : ∀ character ∈ tail.head?, goesOn digits.toList character = false) :
    (atom inner).Gives ⟨digits.toList ++ tail, indents⟩ (.numeral (decimal.toDouble false) digits ())
      ⟨tail, indents⟩ := by
  have hfirst : ∀ character ∈ (digits.toList ++ tail).head?,
      character.isDigit = true ∨ character = '.' := by
    obtain ⟨first, rest, hdigits, hfirst⟩ := h.starts
    rw [hdigits]
    rintro character hhead
    cases hhead
    exact hfirst
  have hparen : '(' ∉ (digits.toList ++ tail).head? :=
    fun hhead => absurd (hfirst '(' hhead) (by decide)
  have hname : Lexeme.name (digits.toList ++ tail) = none := by
    refine name_eq_none fun character hhead => ?_
    rcases hfirst character hhead with hdigit | rfl
    · exact isAlpha_eq_false_of_isDigit hdigit
    · decide
  refine (refuses_paren inner hparen).firstOf_gives
    ((refuses_lexeme _ hname indents).bind.firstOf_gives (Gives.firstOf_cons ?_ _))
  refine (gives_lexeme _ (number_of_denotes h hend) indents).bind ?_
  rw [decimal?_of_denotes h]
  exact gives_pure _ _

end Atoms

variable {inner : Rules}

theorem gives_atom (hinner : inner.Complete bound) (hatom : tree.isAtom = true)
    (h : tree.WellFormed column) (hlength : tree.written.toList.length ≤ bound + 1)
    (hend : ∀ character ∈ tail.head?, tree.goesOn character = false) :
    (atom inner).Gives ⟨tree.written.toList ++ tail, indents⟩ tree ⟨tail, indents⟩ := by
  match tree with
  | .name value _ => exact gives_name inner h hend
  | .numeral value digits _ =>
      obtain ⟨decimal, hdigits, rfl⟩ := h
      exact gives_numeral inner hdigits hend
  | .paren child before behind _ =>
      obtain ⟨hbefore, hbehind, hline, hchild⟩ := h
      have hlengthChild : child.written.toList.length ≤ bound := by
        simp [Node.written] at hlength
        omega
      have hends : EndsLine (behind.toList ++ (")".toList ++ tail)) := by
        rw [EndsLine, List.dropWhile_append_of_pos
          fun character hmem => beq_iff_eq.mpr (hbehind character hmem)]
        rintro character hhead
        cases hhead
        decide
      have hclosed : ' ' ∉ (")".toList ++ tail).head? := by simp
      have htext : (Node.paren child before behind ()).written.toList ++ tail =
          "(".toList ++ (before.toList ++ (child.written.toList ++ (behind.toList ++ (")".toList ++ tail)))) := by
        simp [Node.written]
      rw [htext]
      refine Gives.firstOf_cons ((gives_literal "(" _ indents).bind ?_) _
      refine (gives_optionalSpaces hbefore (space_not_head (hchild.noBlank _))).bind ?_
      refine (hinner.line hline hchild hlengthChild hends).bind ?_
      refine (gives_optionalSpaces hbehind hclosed).bind ?_
      exact (gives_literal ")" tail indents).bind (gives_pure _ _)
  | .row .. => cases hatom
  | .block .. => cases hatom

theorem refuses_rowArgument (inner : Rules) (h : EndsLine tail) :
    (rowArgument inner).Refuses ⟨tail, indents⟩ :=
  (gives_optionalSpaces_dropWhile tail indents).bind_refuses (refuses_atom inner h).bind

/-- A child of a row does not go on with what stands behind it. -/
theorem goesOn_row {children : List Tree} {gaps : List String} (h : Node.Spaced (tree :: children) gaps)
    (hchildren : ∀ child ∈ children, child.WellFormed column) (htail : EndsLine tail) :
    ∀ character ∈ ((Node.writtenRow children gaps).toList ++ tail).head?,
      tree.goesOn character = false := by
  intro character hhead
  match children, gaps with
  | [], _ => exact Node.goesOn_eq_false (htail.noAtom character hhead) tree
  | _ :: _, [] => exact h.elim
  | child :: children, gap :: gaps =>
      obtain ⟨hspaces, hnext, -⟩ := h
      obtain ⟨first, rest, hwritten, -⟩ := (hchildren child List.mem_cons_self).starts
      cases hgap : gap.toList with
      | nil =>
          refine hnext (String.toList_eq_nil_iff.mp hgap) character ?_
          simp only [Node.writtenRow, List.head?_cons, Option.getD_some, String.toList_append, hgap,
            hwritten, List.nil_append, List.cons_append] at hhead ⊢
          exact hhead
      | cons space spaces =>
          simp only [Node.writtenRow, List.head?_cons, Option.getD_some, String.toList_append, hgap,
            List.cons_append, Option.mem_some_iff] at hhead
          subst hhead
          rw [hspaces space (hgap ▸ List.mem_cons_self)]
          exact Node.goesOn_eq_false (by decide) tree

theorem run_rowArguments (hinner : inner.Complete bound) {items : List (String × Tree)}
    (hspaced : Node.Spaced (tree :: items.map (·.2)) (items.map (·.1)))
    (hatoms : ∀ child ∈ items.map (·.2), child.isAtom = true)
    (hchildren : ∀ child ∈ items.map (·.2), child.WellFormed column)
    (hlength : (Node.writtenRow (items.map (·.2)) (items.map (·.1))).toList.length ≤ bound + 1)
    (htail : EndsLine tail) :
    Run (rowArgument inner)
      ⟨(Node.writtenRow (items.map (·.2)) (items.map (·.1))).toList ++ tail, indents⟩ items
      ⟨tail, indents⟩ := by
  induction items generalizing tree with
  | nil => exact .stop (refuses_rowArgument inner htail)
  | cons item items ih =>
      obtain ⟨gap, child⟩ := item
      simp only [List.map_cons] at hspaced hatoms hchildren hlength ⊢
      obtain ⟨hspaces, -, hothers⟩ := hspaced
      obtain ⟨hatom, hatoms⟩ := List.forall_mem_cons.mp hatoms
      obtain ⟨hchild, hchildren⟩ := List.forall_mem_cons.mp hchildren
      obtain ⟨first, rest, hwritten, -⟩ := hchild.starts
      have htext : (Node.writtenRow (child :: items.map (·.2)) (gap :: items.map (·.1))).toList =
          gap.toList ++ (child.written.toList ++
            (Node.writtenRow (items.map (·.2)) (items.map (·.1))).toList) := by
        simp [Node.writtenRow]
      rw [htext] at hlength ⊢
      rw [List.length_append, List.length_append] at hlength
      rw [List.append_assoc, List.append_assoc]
      refine .step ?_ ?_ (ih hothers hatoms hchildren (by omega))
      · refine (gives_optionalSpaces hspaces (space_not_head (hchild.noBlank _))).bind ?_
        refine (gives_atom hinner hatom hchild (by omega) (goesOn_row hothers hchildren htail)).bind ?_
        exact gives_pure _ _
      · simp [hwritten]
        omega

theorem gives_row (hinner : inner.Complete bound) {children : List Tree} {gaps : List String}
    (h : (Node.row children gaps ()).WellFormed column)
    (hlength : (Node.row children gaps ()).written.toList.length ≤ bound + 1) (htail : EndsLine tail) :
    (row inner).Gives ⟨(Node.row children gaps ()).written.toList ++ tail, indents⟩ (.row children gaps ())
      ⟨tail, indents⟩ := by
  obtain ⟨htwo, hatoms, hspaced, hchildren⟩ := h
  rw [Node.allWellFormed_iff] at hchildren
  cases children with
  | nil => simp at htwo
  | cons head arguments =>
      obtain ⟨hhead, hatoms⟩ := List.forall_mem_cons.mp hatoms
      obtain ⟨hheadWellFormed, hchildren⟩ := List.forall_mem_cons.mp hchildren
      obtain ⟨items, rfl, rfl⟩ := exists_pairs hspaced.length_eq
      simp only [Node.written] at hlength ⊢
      rw [String.toList_append, List.length_append] at hlength
      rw [String.toList_append, List.append_assoc]
      have hend := goesOn_row hspaced hchildren htail
      have hrun : Run (rowArgument inner) ⟨_, indents⟩ items ⟨tail, indents⟩ :=
        run_rowArguments hinner hspaced hatoms hchildren (by omega) htail
      cases hrun with
      | stop => simp at htwo
      | step hfirst _ hothers =>
          exact (gives_atom hinner hhead hheadWellFormed (by omega) hend).bind
            (hfirst.bind (hothers.many.bind (gives_pure _ _)))

theorem gives_line (hinner : inner.Complete bound) (hline : tree.isLine = true) (h : tree.WellFormed column)
    (hlength : tree.written.toList.length ≤ bound + 1) (htail : EndsLine tail) :
    (line inner).Gives ⟨tree.written.toList ++ tail, indents⟩ tree ⟨tail, indents⟩ := by
  by_cases hatom : tree.isAtom = true
  · have hread : (atom inner).Gives ⟨tree.written.toList ++ tail, indents⟩ tree ⟨tail, indents⟩ :=
      gives_atom hinner hatom h hlength fun character hhead =>
        Node.goesOn_eq_false (htail.noAtom character hhead) tree
    exact (hread.bind_refuses (refuses_rowArgument inner htail).bind).firstOf_gives (hread.firstOf_cons _)
  · match tree with
    | .row children gaps _ => exact (gives_row hinner h hlength htail).firstOf_cons _
    | .name .. | .numeral .. | .paren .. => exact absurd rfl hatom
    | .block .. => cases hline

/-! ### Blocks -/

/-- Behind an argument of a block stands the next line of the block, or what ends it. -/
theorem stops_arguments {items : List (String × Tree)} (hgaps : ∀ gap ∈ items.map (·.1), IsGap gap.toList)
    (hchildren : ∀ child ∈ items.map (·.2), child.WellFormed column) (htail : Stops column tail) :
    Stops (column + 1)
      ((Node.writtenBlock (items.map (·.2)) column (items.map (·.1))).toList ++ tail) := by
  cases items with
  | nil => exact htail.mono (Nat.le_succ column)
  | cons item items =>
      obtain ⟨gap, child⟩ := item
      simp only [List.map_cons] at hgaps hchildren ⊢
      rw [Node.toList_writtenBlock_cons]
      exact stops_of_gap (hgaps gap List.mem_cons_self)
        ((hchildren child List.mem_cons_self).noBlank _) (Nat.lt_succ_self column)

theorem refuses_blockArgument (hinner : inner.Complete bound) (h : Stops column tail) :
    (blockArgument inner).Refuses ⟨tail, column :: outer⟩ := by
  rcases h.gap with hrefuses | ⟨read, rest, hgives, hstops⟩
  · exact ((gives_indent tail column outer).bind_refuses (hrefuses _).bind).bind
  · by_cases hindent : read.indent = column
    · rcases hstops with hless | hnone
      · exact absurd hindent (Nat.ne_of_lt hless)
      · exact (gives_innerGap (hgives _) hindent).bind_refuses (hinner.none hnone).bind
    · exact (refuses_innerGap (hgives _) hindent).bind

theorem run_blockArguments (hinner : inner.Complete bound) {items : List (String × Tree)}
    (hgaps : ∀ gap ∈ items.map (·.1), IsGap gap.toList)
    (hchildren : ∀ child ∈ items.map (·.2), child.WellFormed column)
    (hlength : (Node.writtenBlock (items.map (·.2)) column (items.map (·.1))).toList.length ≤ bound)
    (htail : Stops column tail) :
    Run (blockArgument inner)
      ⟨(Node.writtenBlock (items.map (·.2)) column (items.map (·.1))).toList ++ tail, column :: outer⟩ items
      ⟨tail, column :: outer⟩ := by
  induction items with
  | nil => exact .stop (refuses_blockArgument hinner htail)
  | cons item items ih =>
      obtain ⟨gap, child⟩ := item
      simp only [List.map_cons] at hgaps hchildren hlength ⊢
      obtain ⟨hgap, hgaps⟩ := List.forall_mem_cons.mp hgaps
      obtain ⟨hchild, hchildren⟩ := List.forall_mem_cons.mp hchildren
      rw [← List.append_nil (String.toList _), Node.toList_writtenBlock_cons, List.append_nil] at hlength
      simp only [List.length_append, List.length_cons] at hlength
      rw [Node.toList_writtenBlock_cons]
      refine .step ?_ ?_ (ih hgaps hchildren (by omega))
      · refine (gives_innerGap (gives_gap hgap column (hchild.noBlank _)) rfl).bind ?_
        refine (hinner.expression hchild (by omega) (stops_arguments hgaps hchildren htail)).bind ?_
        exact gives_pure _ _
      · simp only [List.length_append, List.length_cons]
        omega

theorem gives_block (hinner : inner.Complete bound) {children : List Tree} {indent : Nat} {gaps : List String}
    (h : (Node.block children indent gaps ()).WellFormed column)
    (hlength : (Node.block children indent gaps ()).written.toList.length ≤ bound + 1)
    (htail : Stops (column + 1) tail) :
    (block inner).Gives ⟨(Node.block children indent gaps ()).written.toList ++ tail, column :: outer⟩
      (.block children indent gaps ()) ⟨tail, column :: outer⟩ := by
  cases children with
  | nil => exact h.2.2.2.2.elim
  | cons head arguments =>
      obtain ⟨hindent, htwo, hcount, hgaps, hline, hhead, hchildren⟩ := h
      rw [Node.allWellFormed_iff] at hchildren
      obtain ⟨items, rfl, rfl⟩ := exists_pairs (Nat.succ.inj hcount)
      obtain ⟨first, rest, hwritten, -⟩ := hhead.starts
      have hinside := htail.mono hindent
      simp only [Node.written] at hlength ⊢
      rw [String.toList_append, List.length_append] at hlength
      rw [String.toList_append, List.append_assoc]
      have hstops := stops_arguments hgaps hchildren hinside
      refine (gives_line hinner hline hhead (by omega) hstops.line).bind ?_
      cases items with
      | nil => simp at htwo
      | cons item items =>
          obtain ⟨gap, argument⟩ := item
          simp only [List.map_cons] at hgaps hchildren hlength ⊢
          obtain ⟨hgap, hgaps⟩ := List.forall_mem_cons.mp hgaps
          obtain ⟨hargument, hchildren⟩ := List.forall_mem_cons.mp hchildren
          rw [← List.append_nil (String.toList (Node.writtenBlock _ _ _)), Node.toList_writtenBlock_cons,
            List.append_nil, hwritten] at hlength
          simp only [List.length_append, List.length_cons] at hlength
          rw [Node.toList_writtenBlock_cons]
          refine (gives_openingGap (gives_gap hgap indent (hargument.noBlank _)) hindent).bind ?_
          refine (hinner.expression hargument (by omega) (stops_arguments hgaps hchildren hinside)).bind ?_
          have hothers : (Node.writtenBlock (items.map (·.2)) indent (items.map (·.1))).toList.length ≤ bound := by
            omega
          refine (run_blockArguments hinner hgaps hchildren hothers hinside).many.bind ?_
          exact (gives_closeBlock tail indent (column :: outer)).bind (gives_pure _ _)

/-- A line with no further line below it is not the head of a block. -/
theorem refuses_block (hinner : inner.Complete bound) (hline : tree.isLine = true)
    (h : tree.WellFormed column) (hlength : tree.written.toList.length ≤ bound + 1)
    (htail : Stops (column + 1) tail) :
    (block inner).Refuses ⟨tree.written.toList ++ tail, column :: outer⟩ := by
  refine (gives_line hinner hline h hlength htail.line).bind_refuses ?_
  rcases htail.gap with hrefuses | ⟨read, rest, hgives, hstops⟩
  · exact ((gives_indent tail column outer).bind_refuses (hrefuses _).bind).bind
  · by_cases hindent : read.indent ≤ column
    · exact (refuses_openingGap (hgives _) hindent).bind
    · rcases hstops with hless | hnone
      · exact absurd (Nat.le_of_lt_succ hless) hindent
      · exact (gives_openingGap (hgives _) (Nat.lt_of_not_le hindent)).bind_refuses
          (hinner.none hnone).bind

theorem gives_expression (hinner : inner.Complete bound) (h : tree.WellFormed column)
    (hlength : tree.written.toList.length ≤ bound + 1) (htail : Stops (column + 1) tail) :
    (expression inner).Gives ⟨tree.written.toList ++ tail, column :: outer⟩ tree ⟨tail, column :: outer⟩ := by
  by_cases hline : tree.isLine = true
  · exact (refuses_block hinner hline h hlength htail).firstOf_gives
      ((gives_line hinner hline h hlength htail.line).firstOf_cons _)
  · match tree with
    | .block .. => exact (gives_block hinner h hlength htail).firstOf_cons _
    | .name .. | .numeral .. | .paren .. | .row .. => exact absurd rfl hline

theorem refuses_expression (inner : Rules) (h : NoAtom rest) :
    (expression inner).Refuses ⟨rest, indents⟩ := by
  have hatom : (atom inner).Refuses ⟨rest, indents⟩ := refuses_atom inner h
  have hrow : (row inner).Refuses ⟨rest, indents⟩ := hatom.bind
  have hline : (line inner).Refuses ⟨rest, indents⟩ :=
    hrow.firstOf_cons (hatom.firstOf_cons (refuses_firstOf_nil _))
  have hblock : (block inner).Refuses ⟨rest, indents⟩ := hline.bind
  exact hblock.firstOf_cons (hline.firstOf_cons (refuses_firstOf_nil _))

/-- The rules for a depth accept what is no longer than that: every level takes at least a character. -/
theorem complete_rules (depth : Nat) : (rules depth).Complete depth := by
  induction depth with
  | zero =>
      have hnone : ∀ {tree : Tree} {column : Nat}, tree.WellFormed column →
          ¬tree.written.toList.length ≤ 0 := by
        intro tree column h hlength
        obtain ⟨first, rest, hwritten, -⟩ := h.starts
        rw [hwritten] at hlength
        exact absurd hlength (Nat.not_succ_le_zero _)
      exact ⟨fun _ h hlength => absurd hlength (hnone h), fun h hlength => absurd hlength (hnone h),
        fun _ => refuses_fail _ _⟩
  | succ depth ih => exact ⟨gives_line ih, gives_expression ih, refuses_expression _⟩

theorem gives_blankLines_leading {leading : String} (hcode : NoBlank rest)
    (h : leading = "" ∨ ∃ lines, leading.toList = lines ++ ['\n'] ∧ BlankRun lines) :
    blankLines.Gives ⟨leading.toList ++ rest, indents⟩ leading ⟨rest, indents⟩ := by
  have hnone : IsSpaces [] := isSpaces_replicate 0
  rcases h with rfl | ⟨lines, hlines, hrun⟩
  · exact gives_no_blankLines hnone hcode
  · exact gives_blankLines hlines hrun hnone hcode

theorem gives_program (hinner : inner.Complete bound) {document : Document Unit}
    (h : document.WellFormedProgram) (hlength : document.writtenProgram.toList.length ≤ bound) :
    (program inner).Gives ⟨document.writtenProgram.toList, [0]⟩ document.tree
      ⟨document.trailing.toList, [0]⟩ := by
  obtain ⟨tree, trailing⟩ := document
  obtain ⟨htree, htrailing⟩ := h
  match tree, htree with
  | .block (.name _ _ :: first :: others) _ (leading :: gaps) _,
    ⟨rfl, rfl, hleading, hcount, hgaps, hfirst, hothers⟩ =>
      rw [Node.allWellFormed_iff] at hothers
      obtain ⟨items, rfl, rfl⟩ := exists_pairs hcount
      have htail := stops_of_blankRun htrailing 0
      have htext : (⟨.block (.name "do" () :: first :: items.map (·.2)) 0 (leading :: items.map (·.1)) (),
          trailing⟩ : Document Unit).writtenProgram.toList =
            leading.toList ++ (first.written.toList ++
              ((Node.writtenBlock (items.map (·.2)) 0 (items.map (·.1))).toList ++ trailing.toList)) := by
        simp [Document.writtenProgram]
      rw [htext] at hlength ⊢
      simp only [List.length_append] at hlength
      refine (gives_blankLines_leading (hfirst.noBlank _) hleading).bind ?_
      refine (gives_expression hinner hfirst (by omega) (stops_arguments hgaps hothers htail)).bind ?_
      have hbound : (Node.writtenBlock (items.map (·.2)) 0 (items.map (·.1))).toList.length ≤ bound := by
        omega
      exact (run_blockArguments hinner hgaps hothers hbound htail).many.bind (gives_pure _ _)

theorem gives_ending {trailing : String} (h : BlankRun trailing.toList) :
    ending.Gives ⟨trailing.toList, indents⟩ trailing ⟨[], indents⟩ := by
  have htrailing : Lexeme.trailing (trailing.toList ++ []) = some trailing.toList.length := by
    rw [List.append_nil]
    exact trailing_of_blankRun h
  have hread := gives_lexeme "expected end of input" htrailing indents
  rw [List.append_nil] at hread
  refine hread.bind fun cursor hview => ⟨cursor, ?_, hview⟩
  rw [Cursor.isAtEnd, (View.mk.inj hview).1]
  rfl

theorem readDocument_of_gives {rule : Rules → Parser Tree} {text : String} {document : Document Unit}
    (h : (rule (rules (text.toList.length + 1))).Gives ⟨text.toList, [0]⟩ document.tree
      ⟨document.trailing.toList, [0]⟩)
    (htrailing : BlankRun document.trailing.toList) : readDocument rule text = .ok document := by
  obtain ⟨after, hrule, hview⟩ := h (.ofText text [0]) rfl
  obtain ⟨last, hending, -⟩ := gives_ending htrailing after hview
  have hdeep : deepEnough rule (.ofText text [0]) = (.ok document.tree, after) := hrule
  rw [readDocument, hdeep]
  simp only [hending]
  rfl

theorem readExpression_iff {text : String} {document : Document Unit} :
    readExpression text = .ok document ↔ document.WellFormed ∧ document.written = text := by
  constructor
  · exact readExpression_eq_ok
  · rintro ⟨⟨htree, htrailing⟩, rfl⟩
    refine readDocument_of_gives ?_ htrailing
    rw [Document.written, String.toList_append]
    refine gives_expression (complete_rules _) htree ?_ (stops_of_blankRun htrailing 1)
    rw [List.length_append]
    omega

theorem readProgram_iff {text : String} {document : Document Unit} :
    readProgram text = .ok document ↔ document.WellFormedProgram ∧ document.writtenProgram = text := by
  constructor
  · exact readProgram_eq_ok
  · rintro ⟨h, rfl⟩
    exact readDocument_of_gives (gives_program (complete_rules _) h (Nat.le_succ _)) h.2

/-- The text of a document reads as this document exactly if it is one of the grammar. -/
theorem read_written_iff (document : Document Unit) :
    (readExpression document.written = .ok document ↔ document.WellFormed) ∧
      (readProgram document.writtenProgram = .ok document ↔ document.WellFormedProgram) := by
  rw [readExpression_iff, readProgram_iff]
  exact ⟨and_iff_left rfl, and_iff_left rfl⟩

end Grammar

end Cadence
