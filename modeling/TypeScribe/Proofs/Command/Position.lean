import TypeScribe.Command.Run
import TypeScribe.Proofs.Text.Numerals

/-!
# Positions on the command line

`dump find` takes a position, digits on both sides of a colon (`IsPosition`), and turns away all
other arguments as misuse. Whether the digits can be read is another matter: where both sides are
numerals the point is looked up, and where one is not a fault escapes (`run_find_position`).
-/

namespace TypeScribe.Command

open Text

/-- Digits, a colon and digits. -/
structure IsPosition (text : String) (line column : List Char) : Prop where
  toList_eq : text.toList = line ++ ':' :: column
  line_digits : IsDigits line
  column_digits : IsDigits column

namespace IsPosition

variable {text : String} {line column : List Char}

/-- The colon is not a digit, so the line ends before the first one. -/
theorem ne_colon (h : IsPosition text line column) : ∀ c ∈ line, (c != ':') = true := by
  have hcolon : isDigit ':' = false := by decide +kernel
  intro c hc
  rw [bne_iff_ne]
  rintro rfl
  exact Bool.false_ne_true (hcolon.symm.trans (h.line_digits.2 ':' hc))

/-- The line stands before the first colon. -/
theorem line_eq (h : IsPosition text line column) :
    text.toList.takeWhile (· != ':') = line := by
  rw [h.toList_eq, List.takeWhile_append_of_pos h.ne_colon, List.takeWhile_cons_of_neg (by decide),
    List.append_nil]

/-- The column stands behind it. -/
theorem column_eq (h : IsPosition text line column) :
    (text.toList.dropWhile (· != ':')).drop 1 = column := by
  rw [h.toList_eq, List.dropWhile_append_of_pos h.ne_colon, List.dropWhile_cons_of_neg (by decide)]
  rfl

end IsPosition

/-- A text whose parts before and after the first colon are digits is a position. -/
theorem isPosition_of_parts {text : String}
    (hline : IsDigits (text.toList.takeWhile (· != ':')))
    (hcolumn : IsDigits ((text.toList.dropWhile (· != ':')).drop 1)) :
    IsPosition text (text.toList.takeWhile (· != ':'))
      ((text.toList.dropWhile (· != ':')).drop 1) := by
  refine ⟨?_, hline, hcolumn⟩
  -- There is a colon, since something comes after it.
  obtain ⟨c, column, hrest⟩ := List.exists_cons_of_ne_nil fun hnil : text.toList.dropWhile _ = [] =>
    hcolumn.1 (congrArg (List.drop 1) hnil)
  obtain rfl : c = ':' := by
    have hhead := List.head?_dropWhile_not (· != ':') text.toList
    rw [hrest] at hhead
    simpa using hhead
  rw [hrest, List.drop_one, List.tail_cons, ← hrest]
  exact List.takeWhile_append_dropWhile.symm

/-! ## How positions are read -/

/-- A text that is no position is a misuse. -/
theorem readPosition_of_not_isPosition {text : String}
    (h : ¬∃ line column, IsPosition text line column) : readPosition text = .misuse := by
  refine if_pos ?_
  by_contra hguard
  simp only [Bool.or_eq_true, not_or, List.isEmpty_iff, Bool.not_eq_true', Bool.not_eq_false,
    List.all_eq_true] at hguard
  obtain ⟨⟨⟨hline, hcolumn⟩, hlines⟩, hcolumns⟩ := hguard
  exact h ⟨_, _, isPosition_of_parts ⟨hline, hlines⟩ ⟨hcolumn, hcolumns⟩⟩

/-- The two sides of a position are read as numerals, and the first that is none is blamed. -/
theorem readPosition_of_isPosition {text : String} {line column : List Char}
    (h : IsPosition text line column) :
    readPosition text =
      match readDecimal? line, readDecimal? column with
      | some line, some column => .found line column
      | none, _ => .notANumeral (String.ofList line)
      | some _, none => .notANumeral (String.ofList column) := by
  have hline : line.all isDigit = true := List.all_eq_true.2 h.line_digits.2
  have hcolumn : column.all isDigit = true := List.all_eq_true.2 h.column_digits.2
  rw [readPosition, h.line_eq, h.column_eq, hline, hcolumn,
    List.isEmpty_eq_false_iff.2 h.line_digits.1, List.isEmpty_eq_false_iff.2 h.column_digits.1]
  rfl

/-- What reading a text gives: misuse if it is no position, the numbers of its two sides if these
are numerals, and else the side that is none. -/
theorem readPosition_cases (text : String) :
    ((¬∃ line column, IsPosition text line column) ∧ readPosition text = .misuse) ∨
    ∃ line column, IsPosition text line column ∧
      ((∃ n m, IsNumeralOf line n ∧ IsNumeralOf column m ∧ readPosition text = .found n m) ∨
        ∃ side, (side = line ∨ side = column) ∧ IsUnreadable side ∧
          readPosition text = .notANumeral (String.ofList side)) := by
  by_cases h : ∃ line column, IsPosition text line column
  · obtain ⟨line, column, h⟩ := h
    refine .inr ⟨line, column, h, ?_⟩
    rw [readPosition_of_isPosition h]
    cases hline : readDecimal? line with
    | none =>
      exact .inr ⟨line, .inl rfl, (readDecimal?_eq_none_iff h.line_digits.1).1 hline, rfl⟩
    | some n =>
      cases hcolumn : readDecimal? column with
      | none =>
        exact .inr ⟨column, .inr rfl, (readDecimal?_eq_none_iff h.column_digits.1).1 hcolumn, rfl⟩
      | some m =>
        exact .inl ⟨n, m, readDecimal?_eq_some_iff.1 hline, readDecimal?_eq_some_iff.1 hcolumn, rfl⟩
  · exact .inl ⟨h, readPosition_of_not_isPosition h⟩

/-! ## What is done about them -/

/-- `dump find` rejects what is no position, looks up the point that two numerals give, and stops
with a fault where one side has digits that are no numeral. -/
theorem run_find_position [CallStack] (host : Host) (workspace : Workspace)
    {arguments : List String} {path position : String} {file : Option String}
    (h : (read arguments).reading = .request (.find path position file)) :
    ((¬∃ line column, IsPosition position line column) ∧
      run host workspace arguments = Report.silent 2) ∨
    ∃ line column, IsPosition position line column ∧
      ((∃ n m : Nat, IsNumeralOf line n ∧ IsNumeralOf column m ∧
          run host workspace arguments =
            conclude (workspace.loadDump path) fun root =>
              showPoint root ⟨wantedFile file root, n, m⟩) ∨
        ∃ side, (side = line ∨ side = column) ∧ IsUnreadable side ∧
          run host workspace arguments =
            Report.escaping (.notANumeral (String.ofList side))) := by
  have hrun : run host workspace arguments = runFind workspace path position file := by
    rw [run, h]
    rfl
  rw [hrun, runFind]
  rcases readPosition_cases position with ⟨hno, hread⟩ | ⟨line, column, hposition, hread⟩
  · rw [hread]
    exact .inl ⟨hno, rfl⟩
  · refine .inr ⟨line, column, hposition, ?_⟩
    rcases hread with ⟨n, m, hline, hcolumn, hread⟩ | ⟨side, hside, hunreadable, hread⟩
    · rw [hread]
      exact .inl ⟨n, m, hline, hcolumn, rfl⟩
    · rw [hread]
      exact .inr ⟨side, hside, hunreadable, rfl⟩

/-- A directory with a dump of an empty file. -/
def emptyFileDump : Workspace where
  files := [(["main.ast"], encode "(source_file)")]

/-- A machine with nothing but files. -/
def bareHost : Host where
  environment _ := none
  compile _ := .notFound
  parseSwift _ := ⟨⟨"source_file", 0, 0, 0, 0, true, none, []⟩, false⟩

/-- Numerals may be of any script. -/
theorem run_find_position_arabic :
    letI := CallStack.uniform 2
    let arguments := ["dump", "find", "main.ast", "٣:٤"]
    (read arguments).reading = .request (.find "main.ast" "٣:٤" none) ∧
    run bareHost emptyFileDump arguments =
      conclude (emptyFileDump.loadDump "main.ast") fun root =>
        showPoint root ⟨wantedFile none root, 3, 4⟩ := by
  let _ := CallStack.uniform 2
  have hreading : (read ["dump", "find", "main.ast", "٣:٤"]).reading =
      .request (.find "main.ast" "٣:٤" none) := by decide +kernel
  have hposition : IsPosition "٣:٤" ['٣'] ['٤'] :=
    ⟨by decide, ⟨by decide, List.forall_mem_singleton.2 (by decide +kernel)⟩,
      ⟨by decide, List.forall_mem_singleton.2 (by decide +kernel)⟩⟩
  refine ⟨hreading, ?_⟩
  rcases run_find_position bareHost emptyFileDump hreading with
    ⟨hno, -⟩ | ⟨line, column, hsides, ⟨n, m, hline, hcolumn, hrun⟩ | ⟨side, -, -, hrun⟩⟩
  · exact absurd ⟨_, _, hposition⟩ hno
  · rw [← hsides.line_eq, hposition.line_eq, ← readDecimal?_eq_some_iff] at hline
    rw [← hsides.column_eq, hposition.column_eq, ← readDecimal?_eq_some_iff] at hcolumn
    cases (show readDecimal? ['٣'] = some 3 by decide +kernel).symm.trans hline
    cases (show readDecimal? ['٤'] = some 4 by decide +kernel).symm.trans hcolumn
    exact hrun
  · have hescaped : (run bareHost emptyFileDump ["dump", "find", "main.ast", "٣:٤"]).escaped =
        none := by decide +kernel
    rw [hrun] at hescaped
    cases hescaped

/-- Showing a point raises nothing. -/
theorem showPoint_escaped (root : Dump.Node) (point : Dump.Point) :
    (showPoint root point).escaped = none := by
  unfold showPoint
  split <;> rfl

/-- A superscript is a digit and no numeral: the position is neither rejected nor looked up. -/
theorem run_find_superscript :
    letI := CallStack.uniform 2
    let arguments := ["dump", "find", "main.ast", "²:1"]
    (read arguments).reading = .request (.find "main.ast" "²:1" none) ∧
    (run bareHost emptyFileDump arguments).escaped = some (.notANumeral "²") ∧
    (run bareHost emptyFileDump arguments).exitCode = 1 ∧
    run bareHost emptyFileDump arguments ≠ Report.silent 2 ∧
    ∀ n m : Nat, run bareHost emptyFileDump arguments ≠
      conclude (emptyFileDump.loadDump "main.ast") fun root =>
        showPoint root ⟨wantedFile none root, n, m⟩ := by
  let _ := CallStack.uniform 2
  have hescaped : (run bareHost emptyFileDump ["dump", "find", "main.ast", "²:1"]).escaped =
      some (.notANumeral "²") := by decide +kernel
  refine ⟨by decide +kernel, hescaped, by decide +kernel, fun hrun => ?_, fun n m hrun => ?_⟩
  · rw [hrun] at hescaped
    cases hescaped
  · have hloaded : (emptyFileDump.loadDump "main.ast").outcome.isOk = true := by decide +kernel
    rw [hrun, conclude] at hescaped
    cases hroot : (emptyFileDump.loadDump "main.ast").outcome with
    | error fault => rw [hroot] at hloaded; cases hloaded
    | ok root =>
      rw [hroot] at hescaped
      cases (showPoint_escaped root _).symm.trans hescaped

end TypeScribe.Command
