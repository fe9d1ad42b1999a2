import Quire.Asset.Picture
import Quire.Proofs.Text.Cut
import Quire.Walk.Listing

/-! The columns of code of an example. A column holds the lines of its file, all of them and in their
order, and lines that only fill it up stand below them. Main statement: `compose_columns`, the two
columns of an example in both languages are as high as the longer file. -/
namespace Quire.Example

/-- How many lines a file has. A line feed ends a line, and at the end of the file it starts none. -/
def lineCount (content : String) : Nat :=
  content.toList.count '\n' + if content.toList.getLast? = some '\n' then 0 else 1

/-- The lines of a file, from which its content is put together again but for a last line feed. -/
structure LinesOf (content : String) (lines : List String) : Prop where
  single : ∀ line ∈ lines, '\n' ∉ line.toList
  joined : content = "\n".intercalate lines ++ "\n" ∨
    content = "\n".intercalate lines ∧ content.toList.getLast? ≠ some '\n'
  length_eq : lines.length = lineCount content

/-- A column of code of a height: the lines of a file, and below them those that fill it up. -/
def IsColumn (lang : Lang) (content : String) (height : Nat) (cell : Cell) : Prop :=
  ∃ lines filling, LinesOf content lines ∧ lines.length + filling = height ∧
    cell = ⟨some (lang.title ++ " code"), some lang,
      .code (lines.map some ++ List.replicate filling none)⟩

/-- The text in front of a line feed at the end, if one is there. -/
theorem stripEnd?_cases (content : String) :
    (∃ text, Text.stripEnd? "\n" content = some text ∧ content = text ++ "\n") ∨
      Text.stripEnd? "\n" content = none ∧ content.toList.getLast? ≠ some '\n' := by
  have stripped : Text.stripEnd? "\n" content =
      (['\n'].isPrefixOf? content.toList.reverse).map fun cs => .ofList cs.reverse := rfl
  rw [stripped, ← List.head?_reverse]
  cases backwards : content.toList.reverse with
  | nil => exact .inr ⟨rfl, nofun⟩
  | cons last front =>
    by_cases feed : last = '\n'
    · subst feed
      have chars : content.toList = front.reverse ++ ['\n'] := by
        rw [← List.reverse_cons, ← backwards, List.reverse_reverse]
      refine .inl ⟨.ofList front.reverse, rfl, ?_⟩
      rw [← String.toList_inj, chars, String.toList_append, String.toList_ofList]
      rfl
    · refine .inr ⟨?_, by simpa using feed⟩
      simp [List.isPrefixOf?, Ne.symm feed]

theorem linesOf_splitOn (content : String) :
    LinesOf content (Text.splitOn '\n' ((Text.stripEnd? "\n" content).getD content)) where
  single := by
    intro line member inside
    obtain ⟨part, among, rfl⟩ := List.mem_map.mp member
    rw [String.toList_ofList] at inside
    exact absurd (Text.of_mem_splitChars among inside) (by decide)
  joined := by
    have whole (text : String) : "\n".intercalate (Text.splitOn '\n' text) = text :=
      Text.intercalate_splitOn '\n' text
    rw [whole]
    obtain ⟨text, stripped, eq⟩ | ⟨none_, ended⟩ := stripEnd?_cases content
    · rw [stripped]
      exact .inl eq
    · rw [none_]
      exact .inr ⟨rfl, ended⟩
  length_eq := by
    rw [Text.splitOn, List.length_map, Text.length_splitChars, lineCount]
    obtain ⟨text, stripped, eq⟩ | ⟨none_, ended⟩ := stripEnd?_cases content
    · rw [stripped, Option.getD_some, eq, String.toList_append]
      simp [List.count]
    · rw [none_, Option.getD_none, if_neg ended]
      rfl

namespace Snippet

variable {dir base py r : String} {disk : Disk}

theorem source_of_readText (lang : Lang) {content : String}
    (read_ : disk.readText (path dir (base ++ "." ++ lang.extension)) = .ok content) :
    ∃ lines, source dir base lang disk = .ok lines ∧ LinesOf content lines := by
  have got : read dir (base ++ "." ++ lang.extension) disk = .ok content := by
    unfold read
    rw [read_]
  refine ⟨_, ?_, linesOf_splitOn content⟩
  unfold source lines
  rw [got]
  rfl

/-- The row of code of a snippet in both languages, before its columns are filled up. -/
theorem codeRow_of_readText (python : disk.readText (path dir (base ++ ".py")) = .ok py)
    (rCode : disk.readText (path dir (base ++ ".r")) = .ok r) :
    ∃ pyLines rLines, LinesOf py pyLines ∧ LinesOf r rLines ∧
      codeRow dir base [.py, .r] disk =
        .ok [.ofCode (some "Python code") (some .py) pyLines,
          .ofCode (some "R code") (some .r) rLines] := by
  have extension (lang : Lang) : base ++ ("." ++ lang.extension) = base ++ "." ++ lang.extension :=
    (String.append_assoc ..).symm
  obtain ⟨pyLines, pySource, pyLines_of⟩ := source_of_readText .py (extension .py ▸ python)
  obtain ⟨rLines, rSource, rLines_of⟩ := source_of_readText .r (extension .r ▸ rCode)
  refine ⟨pyLines, rLines, pyLines_of, rLines_of, ?_⟩
  simp only [codeRow, List.mapM_cons, List.mapM_nil, pySource, rSource]
  rfl

end Snippet

/-- Filling up a column leaves its lines where they are. -/
theorem isColumn_padTo {lang : Lang} {content : String} {lines : List String} {height : Nat}
    (lines_of : LinesOf content lines) (fits : lineCount content ≤ height) :
    IsColumn lang content height
      ⟨some (lang.title ++ " code"), some lang, .code (padTo height (lines.map some))⟩ := by
  refine ⟨lines, height - lines.length, lines_of, ?_, ?_⟩
  · rw [lines_of.length_eq]
    exact Nat.add_sub_cancel' fits
  · rw [padTo, List.length_map]

/-- The word for both languages, which is also the one where none is given. -/
theorem langs_of_both {word : String} (both : Text.trim word = "both" ∨ Text.trim word = "") :
    langs word = .ok [.py, .r] := by
  obtain same | same := both <;> simp only [langs, same]

/-- What an example asks for that shows its code in both languages. -/
theorem request_of_both {base : String} {options : Options} {request : Snippet.Request}
    (asked : Walk.requestOf base options = .ok request)
    (both : Text.trim (options.getD "input" "both") = "both" ∨
      Text.trim (options.getD "input" "both") = "") :
    request.base = base ∧ request.input = [.py, .r] := by
  rw [Walk.requestOf, langs_of_both both] at asked
  cases shown : langs (options.getD "output" "both") with
  | error => simp [shown, bind, Except.bind] at asked
  | ok output =>
    cases saved : Format.ofWord (options.getD "format" "plain") with
    | error => simp [shown, saved, bind, Except.bind] at asked
    | ok format =>
      rw [shown, saved] at asked
      obtain rfl := Except.ok.inj asked
      exact ⟨rfl, rfl⟩

/-- A row is added on its own, below what there is. -/
theorem addRow_addRow (cell : Cell) (row cells : List Cell) :
    addRow (addRow [] (cell :: row)) cells = level (cell :: row) :: addRow [] cells := by
  cases cells <;> rfl

/-- An example that shows its code in both languages starts with a row of two columns, which are as
high as the longer file. Nothing but its output can make it fail. -/
theorem compose_columns {options : Options} {request : Snippet.Request} {dir base py r : String}
    {disk : Disk} (store : Asset.Store) (asked : Walk.requestOf base options = .ok request)
    (both : Text.trim (options.getD "input" "both") = "both" ∨
      Text.trim (options.getD "input" "both") = "")
    (python : disk.readText (Snippet.path dir (base ++ ".py")) = .ok py)
    (rCode : disk.readText (Snippet.path dir (base ++ ".r")) = .ok r) :
    let height := max (lineCount py) (lineCount r)
    let outputs := Snippet.outputRow dir store base request.output request.format disk
    ∃ left right, IsColumn .py py height left ∧ IsColumn .r r height right ∧
      Snippet.compose dir store request disk =
        (outputs.1.map fun cells => [left, right] :: addRow [] cells, outputs.2) ∧
      (request.output = [] →
        Snippet.compose dir store request disk = (.ok [[left, right]], disk)) := by
  intro height outputs
  obtain ⟨base_eq, input⟩ := request_of_both asked both
  obtain ⟨pyLines, rLines, py_of, r_of, row⟩ := Snippet.codeRow_of_readText python rCode
  have leveled : level [.ofCode (some "Python code") (some .py) pyLines,
      .ofCode (some "R code") (some .r) rLines] =
        [⟨some "Python code", some .py, .code (padTo height (pyLines.map some))⟩,
          ⟨some "R code", some .r, .code (padTo height (rLines.map some))⟩] := by
    simp only [Cell.ofCode, level, List.length_map, py_of.length_eq, r_of.length_eq, height]
  have whole : Snippet.compose dir store request disk =
      (outputs.1.map fun cells => level [.ofCode (some "Python code") (some .py) pyLines,
        .ofCode (some "R code") (some .r) rLines] :: addRow [] cells, outputs.2) := by
    simp only [Snippet.compose, base_eq, input, row, addRow_addRow, outputs]
  rw [leveled] at whole
  refine ⟨_, _, isColumn_padTo py_of (Nat.le_max_left ..), isColumn_padTo r_of (Nat.le_max_right ..),
    whole, fun alone => ?_⟩
  have nothing : outputs = (.ok [], disk) := by
    simp only [outputs, alone]
    rfl
  rw [whole, nothing]
  rfl

/-- Blank lines and a file without a last line feed. -/
theorem compose_columns_of_blank_lines :
    let disk : Disk := {
      files := [(["code", "a.py"], ⟨.text "x = 1\n\n\ny", 0⟩), (["code", "a.r"], ⟨.text "z\n", 0⟩)]
      folders := [(["code"], 0)]
      now := 1 }
    let options : Options := ⟨[("output", "none")]⟩
    let request : Snippet.Request := ⟨"a", [.py, .r], [], .plain⟩
    let store : Asset.Store := ⟨"", "", 0, 0, .offline⟩
    Walk.requestOf "a" options = .ok request ∧ Text.trim (options.getD "input" "both") = "both" ∧
      disk.readText (Snippet.path "code" ("a" ++ ".py")) = .ok "x = 1\n\n\ny" ∧
      disk.readText (Snippet.path "code" ("a" ++ ".r")) = .ok "z\n" ∧
      (∃ left right, IsColumn .py "x = 1\n\n\ny" 4 left ∧ IsColumn .r "z\n" 4 right ∧
        Snippet.compose "code" store request disk = (.ok [[left, right]], disk)) ∧
      (Snippet.compose "code" store request disk).1.toOption =
        some [[⟨some "Python code", some .py, .code [some "x = 1", some "", some "", some "y"]⟩,
          ⟨some "R code", some .r, .code [some "z", none, none, none]⟩]] := by
  intro disk options request store
  have both : Text.trim (options.getD "input" "both") = "both" := by decide +kernel
  have asked : Walk.requestOf "a" options = .ok request := by
    have none_ : Text.trim (options.getD "output" "both") = "none" := by decide +kernel
    have plain : Text.trim (options.getD "format" "plain") = "plain" := by decide +kernel
    rw [Walk.requestOf, langs_of_both (.inl both), langs, none_, Format.ofWord, plain]
    rfl
  have python : disk.readText (Snippet.path "code" ("a" ++ ".py")) = .ok "x = 1\n\n\ny" := by
    decide +kernel
  have rCode : disk.readText (Snippet.path "code" ("a" ++ ".r")) = .ok "z\n" := by decide +kernel
  obtain ⟨left, right, pyColumn, rColumn, -, alone⟩ :=
    compose_columns store asked (.inl both) python rCode
  have high : max (lineCount "x = 1\n\n\ny") (lineCount "z\n") = 4 := by decide +kernel
  rw [high] at pyColumn rColumn
  exact ⟨asked, both, python, rCode, ⟨left, right, pyColumn, rColumn, alone rfl⟩, by decide +kernel⟩

end Quire.Example
