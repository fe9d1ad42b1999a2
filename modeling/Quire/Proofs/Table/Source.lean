import Quire.Proofs.Node.Plain
import Quire.Proofs.Table.Grid
import Quire.Proofs.Verbs

/-! How the source of a grid is read: as one table, whose children are texts and the rule. -/
namespace Quire.Table

open Node Token

def opening (letters : String) : List Lexeme :=
  [⟨.beginEnv "tabular", "\\begin\x7btabular\x7d", 0⟩, ⟨.openBrace, "\x7b", 0⟩,
    ⟨.text letters, letters, 0⟩, ⟨.closeBrace, "\x7d", 0⟩]

def ruling : Lexeme := ⟨.command "midrule", "\\midrule", 0⟩

def ending : Lexeme := ⟨.endEnv "tabular", "\\end\x7btabular\x7d", 0⟩

section Cuts
variable {rest : List Char} {lexemes : List Lexeme}

theorem cuts_ending : Cuts ('\\' :: "end\x7btabular\x7d".toList) [ending] :=
  @Cuts.cons '\\' "end\x7btabular\x7d".toList [] 12 (.endEnv "tabular") [] (by decide) rfl .nil

theorem cuts_ruling (cuts : Cuts ('\n' :: rest) lexemes) :
    Cuts ('\\' :: ("midrule".toList ++ '\n' :: rest)) (ruling :: lexemes) :=
  @Cuts.cons '\\' ("midrule".toList ++ '\n' :: rest) ('\n' :: rest) 7 (.command "midrule") lexemes
    rfl rfl cuts

theorem cuts_opening {letters : List Char} (letters_ne : letters ≠ [])
    (plain : ∀ c ∈ letters, isSpecial c = false) (cuts : Cuts rest lexemes) :
    Cuts ("\\begin\x7btabular\x7d\x7b".toList ++ (letters ++ '\x7d' :: rest))
      (opening (.ofList letters) ++ lexemes) := by
  have closed : Cuts ('\x7d' :: rest) (⟨.closeBrace, "\x7d", 0⟩ :: lexemes) :=
    @Cuts.cons '\x7d' rest rest 0 .closeBrace lexemes rfl rfl cuts
  have columns := cuts_run letters_ne plain (by simp [isSpecial]) closed
  have opened := @Cuts.cons '\x7b' (letters ++ '\x7d' :: rest) _ 0 .openBrace _ rfl rfl columns
  exact @Cuts.cons '\\' ("begin\x7btabular\x7d".toList ++ '\x7b' :: (letters ++ '\x7d' :: rest)) _
    14 (.beginEnv "tabular") _ rfl rfl opened

end Cuts

def sectionSource (rows : List (List String)) : String := "\n" ++ rowsSource rows

theorem toList_sectionSource (rows : List (List String)) :
    (sectionSource rows).toList = '\n' :: (rowsSource rows).toList := by
  rw [sectionSource, String.toList_append]
  rfl

/-- What holds of the parts of the rows of a grid, and of two texts together, holds of its rows. -/
theorem rowsSource_induction {p : List Char → Prop}
    (append : ∀ cs ds, p cs → p ds → p (cs ++ ds)) (plain : ∀ cs, Prose.IsPlain cs → p cs)
    (parted : p [' ', '&', ' ']) (ended : p [' ', '\\', '\\', '\n'])
    {rows : List (List String)} (cells : ∀ row ∈ rows, ∀ cell ∈ row, Prose.IsPlain cell.toList) :
    p (rowsSource rows).toList := by
  have row_of (row : List String) (cells : ∀ cell ∈ row, Prose.IsPlain cell.toList) :
      p (rowSource row).toList := by
    induction row with
    | nil => exact ended
    | cons cell row ih =>
      have first := plain _ (cells cell (by simp))
      cases row with
      | nil =>
        rw [rowSource, String.intercalate_singleton, String.toList_append]
        exact append _ _ first ended
      | cons next row =>
        have behind := ih fun cell member => cells cell (List.mem_cons_of_mem _ member)
        have source : rowSource (cell :: next :: row) =
            cell ++ " & " ++ rowSource (next :: row) := by
          rw [rowSource, String.intercalate_cons_cons, rowSource, String.append_assoc]
        rw [source, String.toList_append, String.toList_append]
        exact append _ _ (append _ _ first parted) behind
  induction rows with
  | nil => exact plain [] (by decide)
  | cons row rows ih =>
    have behind := ih fun row member => cells row (List.mem_cons_of_mem _ member)
    have source : rowsSource (row :: rows) = rowSource row ++ rowsSource rows := by
      simp [rowsSource]
    rw [source, String.toList_append]
    exact append _ _ (row_of row (cells row (by simp))) behind

theorem texChars_subset : texChars ⊆ Prose.markupChars := by decide

theorem tame_sectionSource {rows : List (List String)}
    (cells : ∀ row ∈ rows, ∀ cell ∈ row, Prose.IsPlain cell.toList) :
    Tame (sectionSource rows).toList := by
  rw [toList_sectionSource]
  refine .ordinary (by decide) (rowsSource_induction ?_ ?_ ?_ ?_ cells)
  · exact fun cs ds => Tame.append
  · exact fun cs plain => .of_plain fun c member tex => plain.1 c member (texChars_subset tex)
  · exact .of_plain (by simp [texChars])
  · exact .ordinary (by decide) (.backslash (.ordinary (by decide) .nil))

theorem unspanned_rowsSource {rows : List (List String)}
    (cells : ∀ row ∈ rows, ∀ cell ∈ row, Prose.IsPlain cell.toList) :
    Verbs.Unspanned (rowsSource rows).toList := by
  refine rowsSource_induction ?_ ?_ ?_ ?_ cells
  · exact fun cs ds => Verbs.Unspanned.append
  · refine fun cs plain => .of_forall fun c member slash => plain.1 c member ?_
    rw [slash]
    decide
  · decide
  · decide

/-- Texts that a walk takes as one. -/
def IsTexts (raw : String) (nodes : List Node) : Prop :=
  (∀ node ∈ nodes, node.isText = true) ∧ sourceOf nodes = raw

theorem isTexts_textsOf {raw : String} {pieces : List Lexeme}
    (spelled : pieces.flatMap (·.spelling.toList) = raw.toList) : IsTexts raw (textsOf pieces) := by
  refine ⟨fun node member => ?_, ?_⟩
  · obtain ⟨l, -, rfl⟩ := List.mem_map.mp member
    rfl
  · rw [← String.toList_inj, toList_sourceOf_textsOf, spelled]

def columnArg (letters : String) : Arg := .mk .required [.text letters] letters

theorem read_opening (letters : String) : ∃ raw b,
    (opening letters).foldlM Builder.step .start = .ok b ∧
      b.settle = Builder.inside "tabular" 0 [columnArg letters] [] [] raw [] := by
  have arg : Arg.mk .required [.text letters] ("" ++ letters) = columnArg letters := by
    rw [String.empty_append]
    rfl
  refine ⟨"" ++ "\\begin\x7btabular\x7d" ++ (columnArg letters).source,
    ⟨_, [], some (.environment "tabular" 0 [columnArg letters]), []⟩, ?_, rfl⟩
  rw [← arg]
  rfl

/-- What is read between the ends of a table are its children. -/
theorem build_table {letters : String} {middle : List Lexeme} {children : List Node}
    (read : ∀ b raw, b.settle = Builder.inside "tabular" 0 [columnArg letters] [] [] raw [] →
      ∃ raw', middle.foldlM Builder.step b =
        .ok (Builder.inside "tabular" 0 [columnArg letters] [] [] raw' children.reverse)) :
    build (opening letters ++ (middle ++ [ending])) =
      .ok [.environment "tabular" [columnArg letters] children] := by
  obtain ⟨raw, b, opened, settled⟩ := read_opening letters
  obtain ⟨raw', inside⟩ := read b raw settled
  have closed : (Builder.inside "tabular" 0 [columnArg letters] [] [] raw' children.reverse).step
      ending = .ok ⟨raw' ++ ending.spelling,
        [.environment "tabular" [columnArg letters] children.reverse.reverse], none, []⟩ := rfl
  rw [List.reverse_reverse] at closed
  rw [build, List.foldlM_append, opened]
  simp only [bind, Except.bind, List.foldlM_append, inside, List.foldlM_cons, closed]
  rfl

theorem foldlM_ruled {b : Builder} {args : List Arg} {raw : String} {head body : List Lexeme}
    {cs ds : List Char}
    (settled : b.settle = Builder.inside "tabular" 0 args [] [] raw [])
    (all : ∀ l ∈ head, IsPiece l) (spelled : head.flatMap (·.spelling.toList) = '\n' :: cs)
    (all' : ∀ l ∈ body, IsPiece l) (spelled' : body.flatMap (·.spelling.toList) = '\n' :: ds) :
    ∃ raw', (head ++ ruling :: body).foldlM Builder.step b =
      .ok (Builder.inside "tabular" 0 args [] [] raw'
        (textsOf head ++ .command "midrule" [] :: textsOf body).reverse) := by
  obtain ⟨above, first⟩ := Builder.foldlM_section settled all spelled
  rw [List.append_nil] at first
  have ruled : (Builder.inside "tabular" 0 args [] [] above (textsOf head).reverse).step ruling =
      .ok ⟨above ++ ruling.spelling, (textsOf head).reverse, some (.command "midrule" []),
        [.environment "tabular" 0 args []]⟩ := rfl
  have open_ : Builder.settle ⟨above ++ ruling.spelling, (textsOf head).reverse,
      some (.command "midrule" []), [.environment "tabular" 0 args []]⟩ =
      Builder.inside "tabular" 0 args [] [] (above ++ ruling.spelling)
        (.command "midrule" [] :: (textsOf head).reverse) := rfl
  obtain ⟨raw', second⟩ := Builder.foldlM_section open_ all' spelled'
  refine ⟨raw', ?_⟩
  rw [List.foldlM_append, first]
  simp only [bind, Except.bind, List.foldlM_cons, ruled]
  refine second.trans ?_
  simp

def Grid.letters (g : Grid) : String := .ofList (List.replicate g.columns 'l')

/-- The children of a table that are read from the source of a grid. -/
def Grid.IsChildren (g : Grid) (children : List Node) : Prop :=
  match g.rule with
  | none => IsTexts (sectionSource g.rows) children
  | some above => ∃ head body, children = head ++ .command "midrule" [] :: body ∧
      IsTexts (sectionSource (g.rows.take above)) head ∧
      IsTexts (sectionSource (g.rows.drop above)) body

section Parse
variable (g : Grid)

theorem parse_of_cuts {middle : List Char} {lexemes : List Lexeme} {children : List Node}
    (source : g.source.toList =
      "\\begin\x7btabular\x7d\x7b".toList ++ (g.letters.toList ++ '\x7d' :: middle))
    (cuts : Cuts middle (lexemes ++ [ending]))
    (read : ∀ b raw, b.settle = Builder.inside "tabular" 0 [columnArg g.letters] [] [] raw [] →
      ∃ raw', lexemes.foldlM Builder.step b =
        .ok (Builder.inside "tabular" 0 [columnArg g.letters] [] [] raw' children.reverse)) :
    parse g.source = .ok [.environment "tabular" [columnArg g.letters] children] := by
  have letters : g.letters.toList = List.replicate g.columns 'l' := String.toList_ofList
  have letters_ne : g.letters.toList ≠ [] := by
    have := g.columns_pos
    rw [letters]
    simp
    omega
  have plain : ∀ c ∈ g.letters.toList, isSpecial c = false := by
    rw [letters]
    intro c member
    rw [(List.mem_replicate.mp member).2]
    rfl
  obtain ⟨lexemes', scanned, same⟩ := cuts_opening letters_ne plain cuts 0
  rw [← source] at scanned
  rw [String.ofList_toList] at same
  exact Builder.parse_of_lexemes scanned same (build_table read)

theorem unspanned_source : Verbs.Unspanned g.source.toList := by
  have letters : Verbs.Unspanned g.letters.toList := by
    rw [Grid.letters, String.toList_ofList]
    refine .of_forall fun c member slash => ?_
    rw [(List.mem_replicate.mp member).2] at slash
    cases slash
  have body : Verbs.Unspanned g.body.toList := by
    unfold Grid.body
    split
    next => exact unspanned_rowsSource g.plain
    next above _ =>
      have head : Verbs.Unspanned (rowsSource (g.rows.take above)).toList :=
        unspanned_rowsSource fun row member => g.plain row (List.mem_of_mem_take member)
      have rest : Verbs.Unspanned (rowsSource (g.rows.drop above)).toList :=
        unspanned_rowsSource fun row member => g.plain row (List.mem_of_mem_drop member)
      have rule : Verbs.Unspanned "\\midrule\n".toList := by decide
      simpa [String.join] using (head.append rule).append rest
  have front : Verbs.Unspanned "\\begin\x7btabular\x7d\x7b".toList := by decide
  have behind : Verbs.Unspanned "\x7d\n".toList := by decide
  have end_ : Verbs.Unspanned "\\end\x7btabular\x7d".toList := by decide
  have whole := (((front.append letters).append behind).append body).append end_
  simpa [Grid.source, Grid.letters] using whole

theorem parse_source : ∃ children, g.IsChildren children ∧
    parse g.source = .ok [.environment "tabular" [columnArg g.letters] children] := by
  have slash {cs : List Char} : ∀ d ∈ ('\\' :: cs).head?, isSpecial d = true := by
    rintro d ⟨⟩
    rfl
  cases rule : g.rule with
  | none =>
    obtain ⟨pieces, all, spelled, cuts⟩ :=
      cutsInPieces_tame (tame_sectionSource g.plain) slash cuts_ending
    refine ⟨textsOf pieces, ?_, parse_of_cuts g ?_ cuts fun b raw settled => ?_⟩
    · simp only [Grid.IsChildren, rule]
      exact isTexts_textsOf spelled
    · simp [Grid.source, Grid.body, rule, Grid.letters, sectionSource]
    · rw [toList_sectionSource] at spelled
      have read := Builder.foldlM_section settled all spelled
      rwa [List.append_nil] at read
  | some above =>
    have plain := g.plain
    obtain ⟨body, all', spelled', behind⟩ := cutsInPieces_tame
      (tame_sectionSource fun row member => plain row (List.mem_of_mem_drop member)) slash
      cuts_ending
    have feed := toList_sectionSource (g.rows.drop above)
    rw [feed] at behind spelled'
    obtain ⟨head, all, spelled, cuts⟩ := cutsInPieces_tame
      (tame_sectionSource fun row member => plain row (List.mem_of_mem_take member)) slash
      (cuts_ruling behind)
    have feed' := toList_sectionSource (g.rows.take above)
    rw [feed'] at cuts spelled
    have whole : head ++ ruling :: (body ++ [ending]) = (head ++ ruling :: body) ++ [ending] := by
      simp
    rw [whole] at cuts
    refine ⟨textsOf head ++ .command "midrule" [] :: textsOf body, ?_,
      parse_of_cuts g ?_ cuts fun b raw settled => foldlM_ruled settled all spelled all' spelled'⟩
    · simp only [Grid.IsChildren, rule]
      exact ⟨_, _, rfl, isTexts_textsOf (feed' ▸ spelled), isTexts_textsOf (feed ▸ spelled')⟩
    · simp [Grid.source, Grid.body, rule, Grid.letters]

end Parse

end Quire.Table
