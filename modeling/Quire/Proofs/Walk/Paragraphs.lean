import Quire.Proofs.Walk.Escaped

/-! Rendering plain paragraphs. Blank lines part a text into the paragraphs that were written, and
each of them gets its own tags, whatever white space parts them. -/
namespace Quire

namespace Walk

/-- White space with a blank line in it, as the first line feed of it sees it. -/
def IsBreak (cs : List Char) : Prop :=
  ∃ blanks white, cs = '\n' :: (blanks ++ '\n' :: white) ∧
    (∀ c ∈ blanks, c = ' ' ∨ c = '\t') ∧ ∀ c ∈ white, Text.isBlank c = true

structure IsParagraph (text : String) : Prop where
  some_ : text ≠ ""
  trimmed : Text.trim text = text
  ordinary : Prose.IsOrdinary text.toList
  unbroken : Unbroken text.toList

section Breaks

variable {cs rest : List Char}

/-- No break ends behind a character that is not white space. -/
theorem breakLength?_append (unbroken : Unbroken ('\n' :: cs))
    (stop : ∃ c ∈ cs, Text.isBlank c = false) : breakLength? (cs ++ rest) = none := by
  refine Option.eq_none_iff_forall_not_mem.mpr fun used found => ?_
  obtain ⟨blanks, blank, part⟩ := prefix_of_breakLength? found
  rcases List.prefix_or_prefix_of_prefix part (List.prefix_append cs rest) with within | beyond
  · exact unbroken blanks blank (List.cons_prefix_cons.mpr ⟨rfl, within⟩).isInfix
  · obtain ⟨c, member, solid⟩ := stop
    have white : c = ' ' ∨ c = '\t' ∨ c = '\n' := by
      simpa [or_assoc] using List.mem_append.mp (beyond.mem member) |>.imp_left (blank c)
    rcases white with rfl | rfl | rfl <;> cases solid

theorem breakLength?_isBreak {blanks white : List Char} (blank : ∀ c ∈ blanks, c = ' ' ∨ c = '\t')
    (all : ∀ c ∈ white, Text.isBlank c = true)
    (solid : ∀ c ∈ rest.head?, Text.isBlank c = false) :
    breakLength? (blanks ++ '\n' :: (white ++ rest)) = some (blanks.length + 1 + white.length) := by
  have line : (blanks ++ '\n' :: (white ++ rest)).takeWhile (fun c => c == ' ' || c == '\t') =
      blanks := by
    rw [List.takeWhile_append_of_pos (by simpa using blank)]
    exact List.append_nil blanks
  have space : (white ++ rest).takeWhile Text.isBlank = white := by
    rw [List.takeWhile_append_of_pos all]
    cases rest with
    | nil => exact List.append_nil white
    | cons c rest => rw [List.takeWhile_cons, if_neg (by simp [solid c rfl]), List.append_nil]
  unfold breakLength?
  simp only [line, List.drop_left, space]

/-- Text that ends in no white space stands whole in front of what follows it. -/
theorem paragraphs_append (unbroken : Unbroken cs)
    (solid : ∀ c ∈ cs.getLast?, Text.isBlank c = false) :
    paragraphs (cs ++ rest) = (cs ++ (paragraphs rest).1, (paragraphs rest).2) := by
  induction cs with
  | nil => rfl
  | cons c cs ih =>
    have none_ : (if c = '\n' then breakLength? (cs ++ rest) else none) = none := by
      split
      next feed =>
        subst feed
        refine breakLength?_append unbroken ?_
        cases last : cs.getLast? with
        | none =>
          rw [List.getLast?_eq_none_iff.mp last] at solid
          exact nomatch solid '\n' rfl
        | some d => exact ⟨d, List.mem_of_getLast? last, solid d (by simp [List.getLast?_cons, last])⟩
      next => rfl
    have behind : ∀ d ∈ cs.getLast?, Text.isBlank d = false :=
      fun d last => solid d (by simp [List.getLast?_cons, Option.mem_def.mp last])
    rw [List.cons_append, paragraphs, none_, ih (unbroken.of_infix (List.infix_cons List.infix_rfl)) behind]
    rfl

/-- A break ends a paragraph and starts another. -/
theorem paragraphs_break {sep : List Char} (parts : IsBreak sep)
    (solid : ∀ c ∈ rest.head?, Text.isBlank c = false) :
    paragraphs (sep ++ rest) = ([], (paragraphs rest).1 :: (paragraphs rest).2) := by
  obtain ⟨blanks, white, rfl, blank, all⟩ := parts
  have found := breakLength?_isBreak blank all solid
  have shape : '\n' :: (blanks ++ '\n' :: white) ++ rest =
      '\n' :: (blanks ++ '\n' :: (white ++ rest)) := by simp
  have left : (blanks ++ '\n' :: (white ++ rest)).drop (blanks.length + 1 + white.length) = rest := by
    have split : blanks ++ '\n' :: (white ++ rest) = (blanks ++ '\n' :: white) ++ rest := by simp
    rw [split, List.drop_left' (by simp; omega)]
  rw [shape, paragraphs, if_pos rfl, found]
  simp only [left]

end Breaks

/-- A text whose last character is no white space. -/
def Ends (text : String) : Prop :=
  ∃ front c, text.toList = front ++ [c] ∧ Text.isBlank c = false

theorem Ends.append {text : String} (ends : Ends text) (front : String) : Ends (front ++ text) := by
  obtain ⟨cs, c, chars, solid⟩ := ends
  exact ⟨front.toList ++ cs, c, by rw [String.toList_append, chars, List.append_assoc], solid⟩

theorem Ends.last {text : String} (ends : Ends text) :
    ∀ c ∈ text.toList.getLast?, Text.isBlank c = false := by
  obtain ⟨cs, c, chars, solid⟩ := ends
  simpa [chars] using solid

namespace IsParagraph

variable {text : String}

theorem ends (para : IsParagraph text) : Ends text := (Text.ends_of_trim para.trimmed para.some_).2

theorem starts (para : IsParagraph text) (rest : List Char) :
    ∃ c ∈ (text.toList ++ rest).head?, Text.isBlank c = false := by
  obtain ⟨c, first, solid⟩ := (Text.ends_of_trim para.trimmed para.some_).1
  exact ⟨c, by rw [List.head?_append_of_ne_nil _ (by simpa using para.some_)]; exact first, solid⟩

end IsParagraph

/-- Plain paragraphs: the first, and the others with the break in front of each. -/
structure Manuscript where
  first : String
  more : List (String × String)
  isParagraph_first : IsParagraph first
  isParagraph_more : ∀ next ∈ more, IsBreak next.1.toList ∧ IsParagraph next.2

namespace Manuscript

def source (m : Manuscript) : String := m.first ++ .join (m.more.map fun next => next.1 ++ next.2)

def texts (m : Manuscript) : List String := m.first :: m.more.map (·.2)

def shown (m : Manuscript) : String :=
  m.first ++ .join (m.more.map fun next => "</p>\n\n<p>" ++ next.2)

end Manuscript

section More

variable {ctx : Context} {s : State} {text : String} {more : List (String × String)}

theorem paragraphs_more (plain : ∀ next ∈ more, IsBreak next.1.toList ∧ IsParagraph next.2) :
    paragraphs (String.join (more.map fun next => next.1 ++ next.2)).toList =
      ([], more.map (·.2.toList)) := by
  induction more with
  | nil => rw [List.map_nil, String.join_nil, String.toList_empty, paragraphs, List.map_nil]
  | cons next more ih =>
    obtain ⟨⟨parts, para⟩, plain⟩ := List.forall_mem_cons.mp plain
    obtain ⟨c, first, solid⟩ := para.starts (String.join (more.map fun next => next.1 ++ next.2)).toList
    rw [List.map_cons, String.join_cons, String.toList_append, String.toList_append,
      List.append_assoc, paragraphs_break parts, paragraphs_append para.unbroken para.ends.last,
      ih plain]
    · simp
    · intro d first'
      rwa [Option.mem_unique first' first]

theorem piece_eq (para : IsParagraph text) :
    piece { ctx with target := .html } text.toList = modify (writePiece Html.flavor text) := by
  rw [piece, String.ofList_toList, Prose.normalize_ordinary para.ordinary]
  rfl

structure InParagraph (s : State) : Prop extends InText s where
  opened : s.inParagraph = true
  ends : Ends s.out

theorem piece_first (para : IsParagraph text) (inText : InText s) :
    piece { ctx with target := .html } text.toList s =
        (.ok (), (s.openParagraph Html.flavor).write text) ∧
      InParagraph ((s.openParagraph Html.flavor).write text) := by
  obtain ⟨c, first, solid⟩ := para.starts []
  rw [List.append_nil] at first
  refine ⟨?_, inText.openParagraph.write text, inText.inParagraph_openParagraph, para.ends.append _⟩
  rw [piece_eq para, modify, inText.writePiece_eq (.inr ⟨c, first, solid⟩)]

/-- The next paragraph closes the one before it. -/
theorem piece_next (para : IsParagraph text) (within_ : InParagraph s) :
    ∃ paragraphTags, piece { ctx with target := .html } text.toList (s.closeParagraph Html.flavor) =
        (.ok (), { s.write ("</p>\n\n<p>" ++ text) with paragraphTags }) ∧
      InParagraph { s.write ("</p>\n\n<p>" ++ text) with paragraphTags } := by
  obtain ⟨front, c, chars, solid⟩ := within_.ends
  have trimmed : Text.trimEnd s.out = s.out :=
    Text.trimEnd_eq_self (by rw [chars, List.getLast?_concat]) solid
  have closed : s.closeParagraph Html.flavor =
      { s.write "</p>\n" with
        inParagraph := false
        paragraphTags := s.paragraphTags ++ [.closing] } := by
    rw [State.closeParagraph, if_pos within_.opened, trimmed]
    rfl
  have inText : InText (s.closeParagraph Html.flavor) := by
    rw [closed]
    exact ⟨within_.outside, within_.flows, within_.level⟩
  have opened : ((s.closeParagraph Html.flavor).openParagraph Html.flavor).write text =
      { s.write ("</p>\n\n<p>" ++ text) with
        paragraphTags := s.paragraphTags ++ [.closing] ++ [.opening] } := by
    rw [inText.openParagraph_eq, closed]
    have tags : "</p>\n" ++ (Html.flavor.paragraphOpen ++ text) = "</p>\n\n<p>" ++ text := by
      rw [← String.append_assoc]
      rfl
    simp [State.write, State.betweenCells, within_.outside, within_.opened, String.append_assoc, tags]
  obtain ⟨ran, inside⟩ := @piece_first ctx _ _ para inText
  rw [opened] at ran inside
  exact ⟨_, ran, inside⟩

theorem pieces_more (plain : ∀ next ∈ more, IsParagraph next.2) (within_ : InParagraph s) :
    ∃ paragraphTags, ((more.map fun next : String × String => next.2.toList).forM fun next => do
        modify (·.closeParagraph Html.flavor)
        piece { ctx with target := .html } next) s =
      (.ok (), { s.write (.join (more.map fun next => "</p>\n\n<p>" ++ next.2)) with
        paragraphTags }) := by
  induction more generalizing s with
  | nil => exact ⟨s.paragraphTags, congrArg (Prod.mk (Except.ok ())) (write_empty s).symm⟩
  | cons next more ih =>
    obtain ⟨para, plain⟩ := List.forall_mem_cons.mp plain
    obtain ⟨_, ran, inside⟩ := @piece_next ctx _ _ para within_
    obtain ⟨paragraphTags, behind⟩ := ih plain inside
    refine ⟨paragraphTags, ?_⟩
    rw [List.map_cons, List.map_cons, String.join_cons, ← write_write, List.forM]
    simp only [bind, bind_, modify, ran]
    exact behind

end More

namespace Manuscript

variable (m : Manuscript) {ctx : Context} {s : State}

theorem paragraphs_source :
    paragraphs m.source.toList = (m.first.toList, m.more.map (·.2.toList)) := by
  rw [source, String.toList_append, paragraphs_append m.isParagraph_first.unbroken
    m.isParagraph_first.ends.last, paragraphs_more m.isParagraph_more, List.append_nil]

theorem text_source (inText : InText s) : ∃ paragraphTags,
    text { ctx with target := .html } m.source s =
      (.ok (), { (s.openParagraph Html.flavor).write m.shown with paragraphTags }) := by
  obtain ⟨ran, inside⟩ := @piece_first ctx s m.first m.isParagraph_first inText
  obtain ⟨paragraphTags, rest⟩ :=
    @pieces_more ctx _ m.more (fun next member => (m.isParagraph_more next member).2) inside
  refine ⟨paragraphTags, ?_⟩
  rw [inText.text_eq, paragraphText, m.paragraphs_source]
  simp only [bind, bind_, ran]
  rw [shown, ← write_write]
  exact rest

theorem ends_shown : Ends m.shown := by
  have all (first : String) (ends : Ends first) (more : List (String × String))
      (plain : ∀ next ∈ more, IsParagraph next.2) :
      Ends (first ++ .join (more.map fun next => "</p>\n\n<p>" ++ next.2)) := by
    induction more generalizing first with
    | nil => simpa using ends
    | cons next more ih =>
      obtain ⟨para, plain⟩ := List.forall_mem_cons.mp plain
      rw [List.map_cons, String.join_cons, ← String.append_assoc, ← String.append_assoc]
      exact ih _ (para.ends.append _) plain
  exact all _ m.isParagraph_first.ends _ fun next member => (m.isParagraph_more next member).2

/-- The tags between two paragraphs are those that end one and start the other. -/
theorem tags_shown : "\n<p>" ++ m.shown ++ "</p>\n" =
    .join (m.texts.map fun text => "\n<p>" ++ text ++ "</p>\n") := by
  have all (first : String) (more : List (String × String)) :
      "\n<p>" ++ (first ++ .join (more.map fun next => "</p>\n\n<p>" ++ next.2)) ++ "</p>\n" =
        .join ((first :: more.map (·.2)).map fun text => "\n<p>" ++ text ++ "</p>\n") := by
    induction more generalizing first with
    | nil => simp
    | cons next more ih =>
      have behind := ih next.2
      have split : "</p>\n\n<p>" = "</p>\n" ++ "\n<p>" := by decide +kernel
      rw [List.map_cons, List.map_cons, List.map_cons, String.join_cons, String.join_cons, ← behind,
        split]
      simp only [String.append_assoc]
  exact all m.first m.more

theorem ordinary_source : ∀ c ∈ m.source.toList, c ∉ Prose.reservedChars := by
  have solid : Prose.reservedChars.all (!Text.isBlank ·) = true := by decide +kernel
  have white {c : Char} (blank : Text.isBlank c = true) : c ∉ Prose.reservedChars := by
    intro member
    simpa [blank] using List.all_eq_true.mp solid c member
  intro c member
  rw [source, String.toList_append, String.toList_join, List.mem_append, List.mem_flatMap] at member
  rcases member with member | ⟨text, among, inside⟩
  · exact m.isParagraph_first.ordinary.1 c member
  · obtain ⟨next, member, rfl⟩ := List.mem_map.mp among
    obtain ⟨⟨blanks, more, chars, blank, all⟩, para⟩ := m.isParagraph_more next member
    rw [String.toList_append, List.mem_append, chars] at inside
    rcases inside with inside | inside
    · refine white ?_
      simp only [List.mem_cons, List.mem_append] at inside
      rcases inside with rfl | inside | rfl | inside
      · rfl
      · rcases blank c inside with rfl | rfl <;> rfl
      · rfl
      · exact all c inside
    · exact para.ordinary.1 c inside

end Manuscript

/-- Plain paragraphs are rendered as themselves, each between its own tags. -/
theorem render_manuscript (m : Manuscript) (kept : List String) (ctx : Context) (disk : Disk) :
    Verbs.preprocess kept m.source = (m.source, kept) ∧
      ∃ nodes, Node.parse m.source = .ok nodes ∧
        render { ctx with target := .html } disk nodes =
          (.ok ⟨.join (m.texts.map fun text => "\n<p>" ++ text ++ "</p>\n"), .empty⟩, disk) := by
  have reserved : Token.texChars ⊆ Prose.reservedChars := by decide
  have tame : Token.Tame m.source.toList :=
    .of_plain fun c member => mt (@reserved c) (m.ordinary_source c member)
  obtain ⟨pieces, spelled, parsed⟩ := Node.parse_tame tame
  have are := Table.isTexts_textsOf spelled
  have some_ : Node.textsOf pieces ≠ [] := by
    intro none_
    have empty := are.2
    rw [none_, Manuscript.source] at empty
    exact m.isParagraph_first.some_ (String.append_eq_empty_iff.mp empty.symm).1
  refine ⟨Verbs.preprocess_unspanned (.of_forall fun c member => ?_) kept, Node.textsOf pieces, ?_,
    ?_⟩
  · rintro rfl
    exact m.ordinary_source _ member (by decide)
  · rwa [String.ofList_toList] at parsed
  · obtain ⟨front, c, chars, solid⟩ := m.ends_shown
    rw [← m.tags_shown]
    refine render_paragraph chars solid disk fun s inText => ?_
    have walked := @neighbours_texts _ _ [] { ctx with target := .html } are some_ rfl
    rw [List.append_nil] at walked
    obtain ⟨paragraphTags, ran⟩ := @Manuscript.text_source m ctx s inText
    refine ⟨paragraphTags, ?_⟩
    rw [walked, bind_, ran, neighbours_nil]
    rfl

/-- A bracket, an ampersand and a line feed in paragraphs, and a carriage return between two. -/
def letter : Manuscript where
  first := "a [b] & c\nd"
  more := [("\n \t\n\r\n  ", "e's - f"), ("\n\n", "g")]
  isParagraph_first := by
    refine ⟨by decide, by decide +kernel, by decide +kernel, fun blanks _ inside => ?_⟩
    have twice := inside.sublist.count_le '\n'
    have once : "a [b] & c\nd".toList.count '\n' = 1 := by decide +kernel
    rw [once] at twice
    simp at twice
  isParagraph_more := by
    have unbroken {text : String} (line : '\n' ∉ text.toList) : Unbroken text.toList :=
      fun _ _ inside => line (inside.mem List.mem_cons_self)
    refine List.forall_mem_cons.mpr ⟨⟨⟨[' ', '\t'], ['\r', '\n', ' ', ' '], ?_⟩, ?_⟩,
      List.forall_mem_singleton.mpr ⟨⟨[], [], ?_⟩, ?_⟩⟩
    · exact ⟨by decide +kernel, by simp, by simp [Text.isBlank]⟩
    · exact ⟨by decide, by decide +kernel, by decide +kernel, unbroken (by decide +kernel)⟩
    · exact ⟨by decide +kernel, by simp, by simp⟩
    · exact ⟨by decide, by decide +kernel, by decide +kernel, unbroken (by decide +kernel)⟩

theorem render_letter :
    let ctx : Context := ⟨.empty, .empty, [], "", ⟨"", "", 0, 0, .offline⟩, .html, 1⟩
    letter.source = "a [b] & c\nd\n \t\n\r\n  e's - f\n\ng" ∧
      ∃ nodes, Node.parse letter.source = .ok nodes ∧
        render ctx .empty nodes =
          (.ok ⟨"\n<p>a [b] & c\nd</p>\n\n<p>e's - f</p>\n\n<p>g</p>\n", .empty⟩,
            .empty) := by
  intro ctx
  obtain ⟨-, nodes, parsed, rendered⟩ := render_manuscript letter [] ctx .empty
  have body : String.join (letter.texts.map fun text => "\n<p>" ++ text ++ "</p>\n") =
      "\n<p>a [b] & c\nd</p>\n\n<p>e's - f</p>\n\n<p>g</p>\n" := by decide +kernel
  rw [body] at rendered
  exact ⟨by decide +kernel, nodes, parsed, rendered⟩

end Walk
end Quire
