import BuildingRules.Proofs.PlainNames

/-!
# The written form of a query tells queries apart

Plain names hold none of the marks that they are followed by, so that a line can be cut where its
parts end, and the first mark of a line shows whether it closes a group. Hence lines that begin with
a clause begin with no other one: `Clause.separable_of_plain`. Queries that are compiled in plain
namespaces and written alike are equal: `Query.eq_of_text_eq`.
-/

set_option autoImplicit false

namespace BuildingRules

open Identifier (IsPlain isPlain_brick)

/-! ## Lines -/

/-- Two texts that go on alike after a mark are cut there alike, if neither holds the mark. -/
theorem cut_inj {Mark : Type} {mark : Mark} {left right rest others : List Mark}
    (notLeft : mark ∉ left) (notRight : mark ∉ right)
    (same : left ++ mark :: rest = right ++ mark :: others) : left = right ∧ rest = others := by
  induction left generalizing right with
  | nil =>
      cases right with
      | nil => exact ⟨rfl, (List.cons.inj same).2⟩
      | cons first tail => exact absurd ((List.cons.inj same).1 ▸ List.mem_cons_self) notRight
  | cons head rest inductionHypothesis =>
      cases right with
      | nil => exact absurd ((List.cons.inj same).1 ▸ List.mem_cons_self) notLeft
      | cons first tail =>
          obtain ⟨sameHead, sameTail⟩ := List.cons.inj same
          obtain ⟨sameRest, sameOthers⟩ := inductionHypothesis
            (fun member => notLeft (List.mem_cons_of_mem head member))
            (fun member => notRight (List.mem_cons_of_mem first member)) sameTail
          exact ⟨by rw [sameHead, sameRest], sameOthers⟩

theorem Quantifier.mark_inj {left right : Quantifier} (same : left.mark = right.mark) :
    left = right := by
  cases left <;> cases right <;> first | rfl | exact absurd same (by decide)

namespace Clause

def line (depth : Nat) (content : List Char) : String := indent depth ++ String.ofList content

/-- What a line says of a subject. -/
def statement (subject : String) (predicate : Iri) (rest : List Char) : List Char :=
  '?' :: (subject.toList ++ ' ' :: '<' :: (predicate.text.toList ++ '>' :: rest))

def typeEnd (className : Iri) : List Char :=
  ' ' :: '<' :: (className.text.toList ++ ['>', ' ', '.'])

def edgeEnd (quantifier : Quantifier) (object : String) : List Char :=
  quantifier.mark.toList ++ ' ' :: '?' :: (object.toList ++ [' ', '.'])

theorem toList_line (depth : Nat) (content : List Char) :
    (line depth content).toList = List.replicate (2 * depth) ' ' ++ content := by
  rw [line, indent, String.toList_append, String.toList_ofList, String.toList_ofList]

theorem line_inj {depth : Nat} {left right : List Char}
    (same : line depth left = line depth right) : left = right := by
  have sameCharacters := congrArg String.toList same
  rw [toList_line, toList_line] at sameCharacters
  exact List.append_cancel_left sameCharacters

theorem lines_hasType (depth : Nat) (subject : String) (className : Iri) :
    (Clause.hasType subject className).lines depth =
      [line depth (statement subject Vocabulary.rdfType (typeEnd className))] := by
  rw [lines, List.cons.injEq, ← String.toList_inj]
  simp [line, statement, typeEnd, Iri.bracketed]

theorem lines_edge (depth : Nat) (subject : String) (predicate : Iri) (quantifier : Quantifier)
    (object : String) :
    (Clause.edge subject predicate quantifier object).lines depth =
      [line depth (statement subject predicate (edgeEnd quantifier object))] := by
  rw [lines, List.cons.injEq, ← String.toList_inj]
  simp [line, statement, edgeEnd, Iri.bracketed]

theorem lines_union (depth : Nat) (groups : List (List Clause)) :
    (Clause.union groups).lines depth =
      line depth ['\x7b'] :: (linesOfGroups depth true groups ++ [line depth ['\x7d']]) := by
  rw [lines]
  rfl

theorem linesOfGroups_cons (depth : Nat) (isFirst : Bool) (group : List Clause)
    (rest : List (List Clause)) :
    linesOfGroups depth isFirst (group :: rest) =
      (if isFirst then [] else [line (depth + 1) "UNION".toList]) ++
        line (depth + 1) ['\x7b'] :: (linesOfGroup (depth + 2) group ++
          line (depth + 1) ['\x7d'] :: linesOfGroups depth false rest) := by
  rw [linesOfGroups]
  simp [line]

/-! ## What is cut off at the end of a line -/

theorem statement_inj {subject otherSubject : String} {predicate otherPredicate : Iri}
    {rest others : List Char} (subjectPlain : IsPlain subject)
    (otherPlain : IsPlain otherSubject) (predicatePlain : IsPlain predicate.text)
    (otherPredicatePlain : IsPlain otherPredicate.text)
    (same : statement subject predicate rest = statement otherSubject otherPredicate others) :
    subject = otherSubject ∧ predicate = otherPredicate ∧ rest = others := by
  obtain ⟨_, same⟩ := List.cons.inj same
  obtain ⟨sameSubject, same⟩ :=
    cut_inj (subjectPlain.not_mem ' ' (by decide)) (otherPlain.not_mem ' ' (by decide)) same
  obtain ⟨_, same⟩ := List.cons.inj same
  obtain ⟨samePredicate, sameRest⟩ := cut_inj (predicatePlain.not_mem '>' (by decide))
    (otherPredicatePlain.not_mem '>' (by decide)) same
  exact ⟨String.toList_inj.1 sameSubject, Iri.ext (String.toList_inj.1 samePredicate), sameRest⟩

/-- Statements begin with a variable, unions with a brace. -/
theorem statement_ne_brace (subject : String) (predicate : Iri) (rest : List Char) :
    statement subject predicate rest ≠ ['\x7b'] := by
  intro same
  exact absurd (List.cons.inj same).1 (by decide)

theorem typeEnd_inj {left right : Iri} (same : typeEnd left = typeEnd right) : left = right := by
  have sameText := List.append_cancel_right (List.cons.inj (List.cons.inj same).2).2
  exact Iri.ext (String.toList_inj.1 sameText)

theorem blank_not_mem_mark (quantifier : Quantifier) : ' ' ∉ quantifier.mark.toList := by
  cases quantifier <;> decide

theorem edgeEnd_inj {quantifier otherQuantifier : Quantifier} {object otherObject : String}
    (same : edgeEnd quantifier object = edgeEnd otherQuantifier otherObject) :
    quantifier = otherQuantifier ∧ object = otherObject := by
  obtain ⟨sameMark, sameRest⟩ :=
    cut_inj (blank_not_mem_mark quantifier) (blank_not_mem_mark otherQuantifier) same
  have sameObject := List.append_cancel_right (List.cons.inj sameRest).2
  exact ⟨Quantifier.mark_inj (String.toList_inj.1 sameMark), String.toList_inj.1 sameObject⟩

/-- After the predicate and its mark, a type goes on with an IRI and an edge with a variable. -/
theorem typeEnd_ne_edgeEnd (className : Iri) (quantifier : Quantifier) (object : String) :
    typeEnd className ≠ edgeEnd quantifier object := by
  intro same
  have cutAlike : [] ++ ' ' :: '<' :: (className.text.toList ++ ['>', ' ', '.']) =
      quantifier.mark.toList ++ ' ' :: '?' :: (object.toList ++ [' ', '.']) := same
  have sameRest := (cut_inj List.not_mem_nil (blank_not_mem_mark quantifier) cutAlike).2
  exact absurd (List.cons.inj sameRest).1 (by decide)

/-! ## What is closed -/

def firstMark (line : String) : Option Char := line.toList.find? fun character => character != ' '

theorem firstMark_line (depth : Nat) (content : List Char) :
    firstMark (line depth content) = content.find? fun character => character != ' ' := by
  rw [firstMark, toList_line, List.find?_append]
  simp

def Closes (lines : List String) : Prop :=
  ∃ first rest, lines = first :: rest ∧ firstMark first = some '\x7d'

theorem closes_brace (depth : Nat) (rest : List String) : Closes (line depth ['\x7d'] :: rest) :=
  ⟨_, rest, rfl, by rw [firstMark_line]; rfl⟩

theorem exists_lines_eq_cons (clause : Clause) (depth : Nat) :
    ∃ first rest, clause.lines depth = first :: rest ∧ firstMark first ≠ some '\x7d' := by
  cases clause with
  | hasType subject className =>
      refine ⟨_, _, lines_hasType depth subject className, ?_⟩
      rw [firstMark_line, statement, List.find?_cons_of_pos (by decide)]
      decide
  | edge subject predicate quantifier object =>
      refine ⟨_, _, lines_edge depth subject predicate quantifier object, ?_⟩
      rw [firstMark_line, statement, List.find?_cons_of_pos (by decide)]
      decide
  | union groups =>
      refine ⟨_, _, lines_union depth groups, ?_⟩
      rw [firstMark_line]
      decide

theorem not_closes_lines (clause : Clause) (depth : Nat) (rest : List String) :
    ¬Closes (clause.lines depth ++ rest) := by
  intro closes
  obtain ⟨first, others, isFirst, isClosing⟩ := closes
  obtain ⟨opening, _, isLines, isOpen⟩ := clause.exists_lines_eq_cons depth
  rw [isLines] at isFirst
  rw [← (List.cons.inj isFirst).1] at isClosing
  exact isOpen isClosing

theorem not_closes_linesOfGroups (depth : Nat) (isFirst : Bool) (group : List Clause)
    (groups : List (List Clause)) (rest : List String) :
    ¬Closes (linesOfGroups depth isFirst (group :: groups) ++ rest) := by
  intro closes
  obtain ⟨first, others, isHead, isClosing⟩ := closes
  rw [linesOfGroups_cons] at isHead
  cases isFirst with
  | true =>
      rw [← (List.cons.inj isHead).1, firstMark_line] at isClosing
      exact absurd isClosing (by decide)
  | false =>
      rw [← (List.cons.inj isHead).1, firstMark_line] at isClosing
      exact absurd isClosing (by decide)

/-! ## Clauses, groups and unions -/

/-- Lines that begin with this clause begin with no other plain one. -/
def Separable (clause : Clause) : Prop :=
  ∀ {other : Clause} {depth : Nat} {rest others : List String}, other.Plain →
    clause.lines depth ++ rest = other.lines depth ++ others → clause = other ∧ rest = others

theorem linesOfGroup_append_inj {left right : List Clause} {depth : Nat}
    {rest others : List String} (separable : ∀ clause ∈ left, clause.Separable)
    (plain : ∀ clause ∈ right, clause.Plain) (closes : Closes rest) (closesToo : Closes others)
    (same : linesOfGroup depth left ++ rest = linesOfGroup depth right ++ others) :
    left = right ∧ rest = others := by
  induction left generalizing right with
  | nil =>
      cases right with
      | nil => exact ⟨rfl, same⟩
      | cons clause tail =>
          simp only [linesOfGroup, List.nil_append, List.append_assoc] at same
          rw [same] at closes
          exact absurd closes (not_closes_lines clause depth _)
  | cons clause tail inductionHypothesis =>
      cases right with
      | nil =>
          simp only [linesOfGroup, List.nil_append, List.append_assoc] at same
          rw [← same] at closesToo
          exact absurd closesToo (not_closes_lines clause depth _)
      | cons other otherTail =>
          simp only [linesOfGroup, List.append_assoc] at same
          obtain ⟨sameClause, sameRest⟩ :=
            separable clause List.mem_cons_self (plain other List.mem_cons_self) same
          obtain ⟨sameTail, sameOthers⟩ := inductionHypothesis
            (fun clause member => separable clause (List.mem_cons_of_mem _ member))
            (fun clause member => plain clause (List.mem_cons_of_mem _ member)) sameRest
          exact ⟨by rw [sameClause, sameTail], sameOthers⟩

theorem linesOfGroups_append_inj {left right : List (List Clause)} {depth : Nat} {isFirst : Bool}
    {rest others : List String} (separable : ∀ group ∈ left, ∀ clause ∈ group, clause.Separable)
    (plain : ∀ group ∈ right, ∀ clause ∈ group, clause.Plain) (closes : Closes rest)
    (closesToo : Closes others)
    (same : linesOfGroups depth isFirst left ++ rest =
      linesOfGroups depth isFirst right ++ others) :
    left = right ∧ rest = others := by
  induction left generalizing right isFirst with
  | nil =>
      cases right with
      | nil => exact ⟨rfl, same⟩
      | cons group tail =>
          have nothingLeft : rest = linesOfGroups depth isFirst (group :: tail) ++ others := same
          rw [nothingLeft] at closes
          exact absurd closes (not_closes_linesOfGroups depth isFirst group tail _)
  | cons group tail inductionHypothesis =>
      cases right with
      | nil =>
          have nothingLeft : linesOfGroups depth isFirst (group :: tail) ++ rest = others := same
          rw [← nothingLeft] at closesToo
          exact absurd closesToo (not_closes_linesOfGroups depth isFirst group tail _)
      | cons other otherTail =>
          simp only [linesOfGroups_cons, List.append_assoc, List.cons_append] at same
          have sameBody := (List.cons.inj (List.append_cancel_left same)).2
          obtain ⟨sameGroup, sameRest⟩ := linesOfGroup_append_inj
            (separable group List.mem_cons_self) (plain other List.mem_cons_self)
            (closes_brace _ _) (closes_brace _ _) sameBody
          obtain ⟨sameTail, sameOthers⟩ := inductionHypothesis
            (fun group member => separable group (List.mem_cons_of_mem _ member))
            (fun group member => plain group (List.mem_cons_of_mem _ member))
            (List.cons.inj sameRest).2
          exact ⟨by rw [sameGroup, sameTail], sameOthers⟩

theorem separable_hasType {subject : String} {className : Iri}
    (plain : (Clause.hasType subject className).Plain) : (hasType subject className).Separable := by
  intro other depth rest others otherPlain same
  cases plain with
  | hasType subjectPlain classPlain =>
  cases otherPlain with
  | hasType otherSubject otherClass =>
      rw [lines_hasType, lines_hasType] at same
      obtain ⟨sameLine, sameRest⟩ := List.cons.inj same
      obtain ⟨rfl, _, sameEnd⟩ := statement_inj subjectPlain otherSubject (by decide) (by decide)
        (line_inj sameLine)
      exact ⟨by rw [typeEnd_inj sameEnd], sameRest⟩
  | edge otherSubject otherPredicate otherObject =>
      rw [lines_hasType, lines_edge] at same
      obtain ⟨_, _, sameEnd⟩ := statement_inj subjectPlain otherSubject (by decide)
        otherPredicate (line_inj (List.cons.inj same).1)
      exact absurd sameEnd (typeEnd_ne_edgeEnd _ _ _)
  | union _ =>
      rw [lines_hasType, lines_union] at same
      exact absurd (line_inj (List.cons.inj same).1) (statement_ne_brace _ _ _)

theorem separable_edge {subject object : String} {predicate : Iri} {quantifier : Quantifier}
    (plain : (Clause.edge subject predicate quantifier object).Plain) :
    (edge subject predicate quantifier object).Separable := by
  intro other depth rest others otherPlain same
  cases plain with
  | edge subjectPlain predicatePlain objectPlain =>
  cases otherPlain with
  | hasType otherSubject otherClass =>
      rw [lines_edge, lines_hasType] at same
      obtain ⟨_, _, sameEnd⟩ := statement_inj subjectPlain otherSubject predicatePlain
        (by decide) (line_inj (List.cons.inj same).1)
      exact absurd sameEnd.symm (typeEnd_ne_edgeEnd _ _ _)
  | edge otherSubject otherPredicate otherObject =>
      rw [lines_edge, lines_edge] at same
      obtain ⟨sameLine, sameRest⟩ := List.cons.inj same
      obtain ⟨rfl, rfl, sameEnd⟩ := statement_inj subjectPlain otherSubject predicatePlain
        otherPredicate (line_inj sameLine)
      obtain ⟨rfl, rfl⟩ := edgeEnd_inj sameEnd
      exact ⟨rfl, sameRest⟩
  | union _ =>
      rw [lines_edge, lines_union] at same
      exact absurd (line_inj (List.cons.inj same).1) (statement_ne_brace _ _ _)

theorem separable_union {groups : List (List Clause)}
    (each : ∀ group ∈ groups, ∀ clause ∈ group, clause.Separable) : (union groups).Separable := by
  intro other depth rest others otherPlain same
  cases otherPlain with
  | hasType otherSubject otherClass =>
      rw [lines_union, lines_hasType] at same
      exact absurd (line_inj (List.cons.inj same).1).symm (statement_ne_brace _ _ _)
  | edge otherSubject otherPredicate otherObject =>
      rw [lines_union, lines_edge] at same
      exact absurd (line_inj (List.cons.inj same).1).symm (statement_ne_brace _ _ _)
  | union otherGroups =>
      rw [lines_union, lines_union] at same
      simp only [List.cons_append, List.append_assoc, List.nil_append] at same
      obtain ⟨rfl, sameRest⟩ := linesOfGroups_append_inj each otherGroups (closes_brace _ _)
        (closes_brace _ _) (List.cons.inj same).2
      exact ⟨rfl, (List.cons.inj sameRest).2⟩

theorem separable_of_plain {clause : Clause} (plain : clause.Plain) : clause.Separable := by
  induction clause using clauseInduction with
  | hasType subject className => exact separable_hasType plain
  | edge subject predicate quantifier object => exact separable_edge plain
  | union groups inductionHypothesis =>
      cases plain with
      | union groupsPlain =>
          exact separable_union fun group inGroups clause inGroup =>
            inductionHypothesis group inGroups clause inGroup
              (groupsPlain group inGroups clause inGroup)

/-! ## Lines stay lines -/

theorem newline_not_mem_line {depth : Nat} {content : List Char} (single : '\n' ∉ content) :
    '\n' ∉ (line depth content).toList := by
  rw [toList_line, List.mem_append]
  rintro (member | member)
  · exact absurd (List.eq_of_mem_replicate member) (by decide)
  · exact single member

theorem newline_not_mem_statement {subject : String} {predicate : Iri} {rest : List Char}
    (subjectPlain : IsPlain subject) (predicatePlain : IsPlain predicate.text)
    (single : '\n' ∉ rest) : '\n' ∉ statement subject predicate rest := by
  have inSubject := subjectPlain.not_mem '\n' (by decide)
  have inPredicate := predicatePlain.not_mem '\n' (by decide)
  simp [statement, inSubject, inPredicate, single]

def Single (line : String) : Prop := '\n' ∉ line.toList

theorem single_linesOfGroup {group : List Clause}
    (each : ∀ clause ∈ group, ∀ depth, ∀ line ∈ clause.lines depth, Single line) (depth : Nat) :
    ∀ line ∈ linesOfGroup depth group, Single line := by
  induction group with
  | nil => simp [linesOfGroup]
  | cons clause rest inductionHypothesis =>
      rw [linesOfGroup]
      exact List.forall_mem_append.2 ⟨each clause List.mem_cons_self depth,
        inductionHypothesis fun other member => each other (List.mem_cons_of_mem clause member)⟩

theorem single_linesOfGroups {groups : List (List Clause)}
    (each : ∀ group ∈ groups, ∀ clause ∈ group, ∀ depth, ∀ line ∈ clause.lines depth, Single line)
    (depth : Nat) (isFirst : Bool) : ∀ line ∈ linesOfGroups depth isFirst groups, Single line := by
  induction groups generalizing isFirst with
  | nil => simp [linesOfGroups]
  | cons group rest inductionHypothesis =>
      have groupSingle := single_linesOfGroup (each group List.mem_cons_self) (depth + 2)
      have restSingle := inductionHypothesis
        (fun other member => each other (List.mem_cons_of_mem group member)) false
      have opens : Single (line (depth + 1) ['\x7b']) := newline_not_mem_line (by decide)
      have closes : Single (line (depth + 1) ['\x7d']) := newline_not_mem_line (by decide)
      have separates : Single (line (depth + 1) "UNION".toList) := newline_not_mem_line (by decide)
      rw [linesOfGroups_cons]
      refine List.forall_mem_append.2 ⟨?_, ?_⟩
      · cases isFirst with
        | true => simp
        | false => simpa using separates
      · exact List.forall_mem_cons.2 ⟨opens, List.forall_mem_append.2
          ⟨groupSingle, List.forall_mem_cons.2 ⟨closes, restSingle⟩⟩⟩

theorem single_hasType {subject : String} {className : Iri} (subjectPlain : IsPlain subject)
    (classPlain : IsPlain className.text) (depth : Nat) :
    ∀ line ∈ (hasType subject className).lines depth, Single line := by
  have inClass := classPlain.not_mem '\n' (by decide)
  have single : Single (line depth (statement subject Vocabulary.rdfType (typeEnd className))) :=
    newline_not_mem_line (newline_not_mem_statement subjectPlain (by decide)
      (by simp [typeEnd, inClass]))
  rw [lines_hasType]
  exact List.forall_mem_singleton.2 single

theorem single_edge {subject object : String} {predicate : Iri} {quantifier : Quantifier}
    (subjectPlain : IsPlain subject) (predicatePlain : IsPlain predicate.text)
    (objectPlain : IsPlain object) (depth : Nat) :
    ∀ line ∈ (edge subject predicate quantifier object).lines depth, Single line := by
  have inObject := objectPlain.not_mem '\n' (by decide)
  have inMark : '\n' ∉ quantifier.mark.toList := by cases quantifier <;> decide
  have single : Single (line depth (statement subject predicate (edgeEnd quantifier object))) :=
    newline_not_mem_line (newline_not_mem_statement subjectPlain predicatePlain
      (by simp [edgeEnd, inMark, inObject]))
  rw [lines_edge]
  exact List.forall_mem_singleton.2 single

theorem single_union {groups : List (List Clause)}
    (each : ∀ group ∈ groups, ∀ clause ∈ group, ∀ depth, ∀ line ∈ clause.lines depth, Single line)
    (depth : Nat) : ∀ line ∈ (union groups).lines depth, Single line := by
  have opens : Single (line depth ['\x7b']) := newline_not_mem_line (by decide)
  have closes : Single (line depth ['\x7d']) := newline_not_mem_line (by decide)
  rw [lines_union]
  exact List.forall_mem_cons.2 ⟨opens, List.forall_mem_append.2
    ⟨single_linesOfGroups each depth true, List.forall_mem_singleton.2 closes⟩⟩

theorem single_lines {clause : Clause} (plain : clause.Plain) :
    ∀ depth, ∀ line ∈ clause.lines depth, Single line := by
  induction clause using clauseInduction with
  | hasType subject className =>
      cases plain with
      | hasType subjectPlain classPlain => exact single_hasType subjectPlain classPlain
  | edge subject predicate quantifier object =>
      cases plain with
      | edge subjectPlain predicatePlain objectPlain =>
          exact single_edge subjectPlain predicatePlain objectPlain
  | union groups inductionHypothesis =>
      cases plain with
      | union groupsPlain =>
          exact single_union fun group inGroups clause inGroup =>
            inductionHypothesis group inGroups clause inGroup
              (groupsPlain group inGroups clause inGroup)

end Clause

/-! ## Queries -/

namespace Query

def headLine (target : String) : String := "SELECT ?root ?" ++ target ++ " WHERE \x7b"

def textLines (query : Query) : List String :=
  headLine query.target :: (Clause.linesOfGroup 1 query.clauses ++ ["\x7d"])

theorem text_eq_intercalate (query : Query) : query.text = "\n".intercalate query.textLines := by
  have sameHead : "SELECT" ++ String.join (query.projection.map (" ?" ++ ·)) ++ " WHERE \x7b" =
      headLine query.target := by
    rw [← String.toList_inj]
    simp [headLine, projection, root]
  rw [text, sameHead]
  rfl

theorem textLines_inj {left right : Query}
    (leftSingle : ∀ line ∈ left.textLines, Clause.Single line)
    (rightSingle : ∀ line ∈ right.textLines, Clause.Single line) (same : left.text = right.text) :
    left.textLines = right.textLines := by
  have cutBack : ∀ query : Query, (∀ line ∈ query.textLines, Clause.Single line) →
      List.splitOn '\n' query.text.toList = query.textLines.map String.toList := by
    intro query single
    rw [text_eq_intercalate, String.toList_intercalate]
    apply List.splitOn_intercalate
    · exact List.forall_mem_map.2 single
    · simp [textLines]
  have sameLines : left.textLines.map String.toList = right.textLines.map String.toList := by
    rw [← cutBack left leftSingle, ← cutBack right rightSingle, same]
  exact (List.map_inj_right fun _ _ => String.toList_inj.1).1 sameLines

theorem single_textLines {query : Query} (targetPlain : IsPlain query.target)
    (plain : ∀ clause ∈ query.clauses, clause.Plain) :
    ∀ line ∈ query.textLines, Clause.Single line := by
  have inTarget := targetPlain.not_mem '\n' (by decide)
  have headSingle : Clause.Single (headLine query.target) := by
    simp [Clause.Single, headLine, inTarget]
  have closeSingle : Clause.Single "\x7d" := by
    simp [Clause.Single]
  exact List.forall_mem_cons.2 ⟨headSingle, List.forall_mem_append.2
    ⟨Clause.single_linesOfGroup (fun clause member => Clause.single_lines (plain clause member)) 1,
      List.forall_mem_singleton.2 closeSingle⟩⟩

/-- Queries that are compiled in plain namespaces and written alike are equal. -/
theorem eq_of_text_eq {leftSpace rightSpace : Namespace}
    (leftPlain : IsPlain leftSpace.base) (rightPlain : IsPlain rightSpace.base)
    {leftClass leftTarget rightClass rightTarget : String} {leftPattern rightPattern : Pattern}
    {left right : Query}
    (leftCompiled : compile leftSpace leftClass leftTarget leftPattern = .ok left)
    (rightCompiled : compile rightSpace rightClass rightTarget rightPattern = .ok right)
    (same : left.text = right.text) : left = right := by
  obtain ⟨leftTargetPlain, leftClauses, leftRest, leftStart⟩ :=
    plain_of_compile leftPlain leftCompiled
  obtain ⟨rightTargetPlain, rightClauses, rightRest, rightStart⟩ :=
    plain_of_compile rightPlain rightCompiled
  have sameLines := textLines_inj (single_textLines leftTargetPlain leftClauses)
    (single_textLines rightTargetPlain rightClauses) same
  obtain ⟨sameHead, sameBody⟩ := List.cons.inj sameLines
  have sameTarget : left.target = right.target := by
    rw [headLine, headLine, String.append_left_inj, String.append_right_inj] at sameHead
    exact sameHead
  have closing : Clause.Closes ["\x7d"] := Clause.closes_brace 0 []
  have sameClauses : left.clauses = right.clauses := (Clause.linesOfGroup_append_inj
    (fun clause member => Clause.separable_of_plain (leftClauses clause member)) rightClauses
    closing closing sameBody).1
  have sameFirst := leftStart.symm.trans (sameClauses.trans rightStart)
  have sameClass : left.className = right.className := by
    injection (List.cons.inj sameFirst).1
  calc left = ⟨left.className, left.target, left.clauses⟩ := rfl
    _ = ⟨right.className, right.target, right.clauses⟩ := by
        rw [sameClass, sameTarget, sameClauses]
    _ = right := rfl

/-- The class and its points, or those of its parts. -/
def sensorChoice : Pattern :=
  .choice [.leaf "Sensor", .related .hasPart .oneOrMore (.constraint "VAV" (.leaf "Sensor"))]

def brickVav : String := "https://brickschema.org/schema/Brick#VAV"

/-- A class is named locally or by its IRI, and a constraint stands alone or as the only part. -/
theorem eq_of_text_eq_of_spellings :
    IsPlain Namespace.brick.base ∧ ∃ left right,
      compile .brick "VAV" "point" (.all [.constraint "VAV" sensorChoice]) = .ok left ∧
      compile .brick brickVav "point" (.constraint brickVav sensorChoice) = .ok right ∧
      left.text = right.text ∧ left = right :=
  ⟨isPlain_brick, _, _, rfl, rfl, rfl, @eq_of_text_eq .brick .brick isPlain_brick isPlain_brick
    "VAV" "point" brickVav "point" (.all [.constraint "VAV" sensorChoice])
    (.constraint brickVav sensorChoice) _ _ rfl rfl rfl⟩

end Query

end BuildingRules
