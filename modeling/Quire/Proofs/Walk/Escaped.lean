import Quire.Proofs.Node.Escaped
import Quire.Proofs.Walk.Course
import Quire.Proofs.Walk.Grid

/-! Rendering escaped text: a paragraph that shows the text as it is. A command that shows a
backslash takes the blanks behind it, and a bracket for its option, so a text with these behind a
backslash is not shown so. -/
namespace Quire

namespace Walk

open Prose (escape shown)
open Node (IsRun Reads)

/-- A text in which no line of blanks parts paragraphs. -/
def Unbroken (cs : List Char) : Prop :=
  ∀ blanks : List Char, (∀ c ∈ blanks, c = ' ' ∨ c = '\t') → ¬ '\n' :: (blanks ++ ['\n']) <:+: cs

theorem Unbroken.of_infix {cs ds : List Char} (unbroken : Unbroken cs) (inside : ds <:+: cs) :
    Unbroken ds :=
  fun blanks blank part => unbroken blanks blank (part.trans inside)

theorem Unbroken.escape {cs : List Char} (unbroken : Unbroken cs) : Unbroken (escape cs) := by
  refine fun blanks blank inside => unbroken blanks blank (Prose.infix_of_escape ?_ inside)
  intro slash
  rcases List.mem_append.mp slash with member | member
  · rcases blank _ member with eq | eq <;> cases eq
  · cases List.mem_singleton.mp member

/-- A break is a line of blanks. -/
theorem prefix_of_breakLength? {cs : List Char} {used : Nat} (found : breakLength? cs = some used) :
    ∃ blanks : List Char, (∀ c ∈ blanks, c = ' ' ∨ c = '\t') ∧ blanks ++ ['\n'] <+: cs := by
  unfold breakLength? at found
  dsimp only at found
  split at found
  next rest behind =>
    have whole := List.prefix_append_drop
      (List.takeWhile_prefix (fun c => c == ' ' || c == '\t') (l := cs))
    rw [behind] at whole
    refine ⟨cs.takeWhile fun c => c == ' ' || c == '\t', fun c member => ?_, rest, ?_⟩
    · simpa using List.mem_takeWhile_imp member
    · simpa using whole.symm
  next => cases found

theorem breakLength?_unbroken {cs : List Char} (unbroken : Unbroken ('\n' :: cs)) :
    breakLength? cs = none := by
  refine Option.eq_none_iff_forall_not_mem.mpr fun used found => ?_
  obtain ⟨blanks, blank, part⟩ := prefix_of_breakLength? found
  exact unbroken blanks blank (List.cons_prefix_cons.mpr ⟨rfl, part⟩).isInfix

theorem paragraphs_unbroken {cs : List Char} (unbroken : Unbroken cs) :
    paragraphs cs = (cs, []) := by
  induction cs with
  | nil => rw [paragraphs]
  | cons c cs ih =>
    have none_ : (if c = '\n' then breakLength? cs else none) = none := by
      split
      next feed => exact breakLength?_unbroken (feed ▸ unbroken)
      next => rfl
    rw [paragraphs, none_, ih (unbroken.of_infix (List.infix_cons List.infix_rfl))]

/-- A walk in running text, where paragraphs may start. -/
structure InText (s : State) : Prop where
  outside : s.table = none
  flows : s.inline = false
  level : s.depth = s.blockDepth

namespace InText

variable {flavor : Flavor} {s : State}

theorem write (inText : InText s) (text : String) : InText (s.write text) :=
  ⟨inText.outside, inText.flows, inText.level⟩

theorem openParagraph_eq (inText : InText s) : s.openParagraph flavor =
    if s.inParagraph then s
    else { s.write flavor.paragraphOpen with
      inParagraph := true, paragraphTags := s.paragraphTags ++ [.opening] } := by
  cases open_ : s.inParagraph <;>
    simp [State.openParagraph, State.write, open_, inText.outside, inText.flows, inText.level]

theorem openParagraph (inText : InText s) : InText (s.openParagraph flavor) := by
  rw [inText.openParagraph_eq]
  split <;> exact ⟨inText.outside, inText.flows, inText.level⟩

theorem inParagraph_openParagraph (inText : InText s) :
    (s.openParagraph flavor).inParagraph = true := by
  rw [inText.openParagraph_eq]
  split
  · assumption
  · rfl

/-- In an open paragraph none is opened. -/
theorem openParagraph_write (inText : InText s) (text : String) :
    ((s.openParagraph flavor).write text).openParagraph flavor =
      (s.openParagraph flavor).write text := by
  rw [(inText.openParagraph.write text).openParagraph_eq]
  exact if_pos inText.inParagraph_openParagraph

theorem text_eq {ctx : Context} (inText : InText s) (raw : String) :
    text ctx raw s = paragraphText ctx raw s := by
  simp [text, Walk.get, bind, bind_, inText.outside, inText.flows, inText.level]

/-- Text in front of which no white space is dropped. -/
theorem writePiece_eq (inText : InText s) {text : String}
    (lead : s.inParagraph = true ∨ ∃ c ∈ text.toList.head?, Text.isBlank c = false) :
    writePiece flavor text s = (s.openParagraph flavor).write text := by
  rw [inText.openParagraph_eq]
  cases open_ : s.inParagraph with
  | true => simp [writePiece, open_]
  | false =>
    obtain ⟨c, first, solid⟩ := lead.resolve_left (by simp [open_])
    obtain ⟨cs, chars⟩ := List.head?_eq_some_iff.mp first
    have start : Text.trimStart text = text := by
      rw [Text.trimStart, Text.dropFront, chars, List.dropWhile_cons, if_neg (by simp [solid]),
        ← chars, String.ofList_toList]
    have some_ : Text.allBlank text = false := by simp [Text.allBlank, chars, solid]
    simp [writePiece, open_, some_, start, inText.openParagraph_eq]

end InText

/-- A text that is shown as it is when it is escaped: no character of it stands for a space or joins
its neighbour, no lines part it, and nothing that a command would take follows a backslash. -/
structure IsShown (cs : List Char) : Prop where
  untied : '~' ∉ cs
  apart : cs.IsChain fun a b => a = b → a ∉ Prose.ligatureChars
  unbroken : Unbroken cs
  untaken : cs.IsChain fun a b => a = '\\' → b ≠ ' ' ∧ b ≠ '\t' ∧ b ≠ '['

namespace IsShown

variable {cs ds : List Char}

theorem left (shows : IsShown (cs ++ ds)) : IsShown cs where
  untied := mt (List.mem_append_left ds) shows.untied
  apart := (List.isChain_append.mp shows.apart).1
  unbroken := shows.unbroken.of_infix (List.prefix_append cs ds).isInfix
  untaken := (List.isChain_append.mp shows.untaken).1

theorem right (shows : IsShown (cs ++ ds)) : IsShown ds where
  untied := mt (List.mem_append_right cs) shows.untied
  apart := (List.isChain_append.mp shows.apart).2.1
  unbroken := shows.unbroken.of_infix (List.suffix_append cs ds).isInfix
  untaken := (List.isChain_append.mp shows.untaken).2.1

end IsShown

section Nodes

variable {ctx : Context} {part cs : List Char} {texts nodes rest : List Node} {s : State}

theorem isTexts_of_isRun (run : IsRun part texts) :
    Table.IsTexts (.ofList (escape part)) texts ∧ (part ≠ [] → texts ≠ []) := by
  induction run with
  | nil => exact ⟨⟨nofun, rfl⟩, fun some_ => absurd rfl some_⟩
  | cons _ _ _ ih =>
    obtain ⟨⟨all, source⟩, -⟩ := ih
    refine ⟨⟨List.forall_mem_cons.mpr ⟨rfl, all⟩, ?_⟩, by simp⟩
    rw [Node.sourceOf, source, Node.source, Prose.escape_append]
    simp

theorem texts_eq_nil (run : IsRun part texts) (none_ : part = []) : texts = [] := by
  cases run with
  | nil => rfl
  | cons part_ne => exact absurd (List.append_eq_nil_iff.mp none_).1 part_ne

theorem text_escape (shows : IsShown part) (inText : InText s)
    (lead : s.inParagraph = true ∨ ∃ c ∈ part.head?, Text.isBlank c = false) :
    text { ctx with target := .html } (.ofList (escape part)) s =
      (.ok (), (s.openParagraph Html.flavor).write (.ofList (shown part))) := by
  have normal : Prose.normalize .html (.ofList (escape part)) = .ok (.ofList (shown part)) := by
    rw [Prose.normalize, String.toList_ofList, Prose.convert_escape .html shows.untied shows.apart]
    rfl
  have leads : s.inParagraph = true ∨
      ∃ c ∈ (String.ofList (shown part)).toList.head?, Text.isBlank c = false := by
    refine lead.imp id ?_
    rintro ⟨c, first, solid⟩
    obtain ⟨rest, rfl⟩ := List.head?_eq_some_iff.mp first
    obtain ⟨⟨d, ds, spelled, solid⟩, -⟩ := Prose.showChar_solid solid
    exact ⟨d, by simp [shown, spelled], solid⟩
  have whole : paragraphs (String.ofList (escape part)).toList = (escape part, []) := by
    rw [String.toList_ofList, paragraphs_unbroken shows.unbroken.escape]
  rw [inText.text_eq, paragraphText, whole]
  simp only [piece, normal, rendering, bind, bind_, pure_, modify, List.forM_eq_forM, List.forM_nil]
  rw [← inText.writePiece_eq leads]
  rfl

/-- The texts of a run are walked as one. -/
theorem neighbours_run (run : IsRun part texts) (part_ne : part ≠ [])
    (other : rest.takeWhile (·.isText) = []) (shows : IsShown part) (inText : InText s)
    (lead : s.inParagraph = true ∨ ∃ c ∈ part.head?, Text.isBlank c = false) :
    neighbours { ctx with target := .html } (texts ++ rest) s =
      neighbours { ctx with target := .html } rest
        ((s.openParagraph Html.flavor).write (.ofList (shown part))) := by
  obtain ⟨are, texts_ne⟩ := isTexts_of_isRun run
  rw [neighbours_texts _ are (texts_ne part_ne) other, bind_, text_escape shows inText lead]

/-- A text in front of others starts with a backslash or as all that is shown does. -/
theorem texts_of_isRun (run : IsRun part texts) (back : List Char) :
    texts = [] ∨ ∃ content more d ds, texts = .text content :: more ∧ content.toList = d :: ds ∧
      (d = '\\' ∨ d ∈ (part ++ back).head?) := by
  cases run with
  | nil => exact .inl rfl
  | @cons first cs more first_ne =>
    obtain ⟨d, ds, chars⟩ := List.exists_cons_of_ne_nil (Prose.escape_ne_nil first_ne)
    refine .inr ⟨_, more, d, ds, rfl, by rw [String.toList_ofList, chars], ?_⟩
    rw [List.append_assoc, List.head?_append_of_ne_nil first first_ne]
    exact Prose.head?_escape (by rw [chars]; rfl)

theorem dropSpaces_text {content : String} {more : List Node} {d : Char} {ds : List Char}
    (chars : content.toList = d :: ds) (space : d ≠ ' ') (tab : d ≠ '\t') :
    dropSpaces (.text content :: more) = .text content :: more := by
  have same : Text.dropFront (fun c => c == ' ' || c == '\t') content = content := by
    rw [Text.dropFront, chars, List.dropWhile_cons, if_neg (by simp [space, tab]), ← chars,
      String.ofList_toList]
  have some_ : content ≠ "" := by
    rintro rfl
    cases chars
  simp [dropSpaces, same, some_]

theorem dropSpaces_of_reads (reads : Reads cs nodes) (space : ' ' ∉ cs.head?)
    (tab : '\t' ∉ cs.head?) : dropSpaces nodes = nodes := by
  have text {content : String} {more : List Node} {d : Char} {ds : List Char}
      (chars : content.toList = d :: ds) (front : d = '\\' ∨ d ∈ cs.head?) :
      dropSpaces (.text content :: more) = .text content :: more := by
    refine dropSpaces_text chars ?_ ?_
    · rintro rfl
      exact front.elim nofun space
    · rintro rfl
      exact front.elim nofun tab
  cases reads with
  | last run =>
    obtain rfl | ⟨content, more, d, ds, rfl, chars, front⟩ := texts_of_isRun run []
    · rfl
    · exact text chars (by simpa using front)
  | slash run behind =>
    obtain rfl | ⟨content, more, d, ds, rfl, chars, front⟩ := texts_of_isRun run _
    · rfl
    · exact text chars front

theorem neighbours_backslash (reads : Reads cs nodes) (space : ' ' ∉ cs.head?)
    (tab : '\t' ∉ cs.head?) (s : State) :
    neighbours { ctx with target := .html } (Node.backslash :: nodes) s =
      neighbours { ctx with target := .html } nodes
        ((s.openParagraph Html.flavor).write "\\") := by
  have role : roleOf? Node.backslash = some (.fixed "\\" "\\\\") := by decide +kernel
  have left : remaining Node.backslash nodes = nodes := by
    rw [Node.backslash] at role ⊢
    simp only [remaining, role]
    exact dropSpaces_of_reads reads space tab
  rw [neighbours_cons, left]
  simp only [visit_of_role role, perform, fixed]
  rfl

theorem write_empty (s : State) : s.write "" = s := by
  have same : s.strays.modifyHead (fun text => text) = s.strays := by cases s.strays <;> rfl
  simp only [State.write, String.append_empty, same, ite_self]

theorem write_write (s : State) (first second : String) :
    (s.write first).write second = s.write (first ++ second) := by
  have same : (s.write first).betweenCells = s.betweenCells := rfl
  rw [State.write, same]
  cases between : s.betweenCells
  · simp [State.write, between, String.append_assoc]
  · cases strays : s.strays <;> simp [State.write, between, strays, String.append_assoc]

theorem shown_slash (part cs : List Char) : String.ofList (shown (part ++ '\\' :: cs)) =
    .ofList (shown part) ++ ("\\" ++ .ofList (shown cs)) := by
  have slash : shown (part ++ '\\' :: cs) = shown part ++ ('\\' :: shown cs) := by
    rw [shown, List.flatMap_append]
    rfl
  rw [slash]
  simp

/-- A run in front of a backslash is shown in its paragraph; without one the paragraph opens at the
backslash. -/
theorem neighbours_run_backslash (run : IsRun part texts) (shows : IsShown (part ++ '\\' :: cs))
    (reads : Reads cs nodes) (inText : InText s)
    (lead : s.inParagraph = true ∨ ∃ c ∈ (part ++ '\\' :: cs).head?, Text.isBlank c = false) :
    neighbours { ctx with target := .html } (texts ++ Node.backslash :: nodes) s =
      neighbours { ctx with target := .html } nodes
        ((s.openParagraph Html.flavor).write (.ofList (shown part) ++ "\\")) := by
  obtain ⟨starts, -⟩ := List.isChain_cons.mp shows.right.untaken
  have space : ' ' ∉ cs.head? := fun first => (starts ' ' first rfl).1 rfl
  have tab : '\t' ∉ cs.head? := fun first => (starts '\t' first rfl).2.1 rfl
  by_cases part_ne : part = []
  · obtain rfl := texts_eq_nil run part_ne
    subst part_ne
    rw [List.nil_append, neighbours_backslash reads space tab]
    rfl
  · rw [List.head?_append_of_ne_nil _ part_ne] at lead
    rw [neighbours_run run part_ne rfl shows.left inText lead, neighbours_backslash reads space tab,
      inText.openParagraph_write, write_write]

/-- The nodes of escaped text show the text. -/
theorem neighbours_reads (reads : Reads cs nodes) (shows : IsShown cs) (inText : InText s)
    (lead : s.inParagraph = true ∨ ∃ c ∈ cs.head?, Text.isBlank c = false) :
    neighbours { ctx with target := .html } nodes s =
      (.ok (), (s.openParagraph Html.flavor).write (.ofList (shown cs))) := by
  induction reads generalizing s with
  | @last part texts run =>
    by_cases part_ne : part = []
    · obtain rfl := texts_eq_nil run part_ne
      subst part_ne
      have open_ : s.inParagraph = true := lead.resolve_right (by simp)
      rw [neighbours_nil, inText.openParagraph_eq, if_pos open_]
      simp [pure_, shown, write_empty]
    · have walked := @neighbours_run ctx part texts [] s run part_ne rfl shows inText lead
      rwa [List.append_nil, neighbours_nil] at walked
  | @slash part cs texts nodes run behind ih =>
    have shows' : IsShown cs := @IsShown.right ['\\'] cs shows.right
    rw [neighbours_run_backslash run shows behind inText lead,
      ih shows' (inText.openParagraph.write _) (.inl inText.inParagraph_openParagraph),
      inText.openParagraph_write, write_write, shown_slash, String.append_assoc]

end Nodes

/-- A chapter that writes one paragraph, which no white space ends. -/
theorem render_paragraph {ctx : Context} {chapter : List Node} {text : String} {front : List Char}
    {c : Char} (chars : text.toList = front ++ [c]) (solid : Text.isBlank c = false) (disk : Disk)
    (walked : ∀ s, InText s → ∃ paragraphTags, neighbours { ctx with target := .html } chapter s =
      (.ok (), { (s.openParagraph Html.flavor).write text with paragraphTags })) :
    render { ctx with target := .html } disk chapter =
      (.ok ⟨"\n<p>" ++ text ++ "</p>\n", .empty⟩, disk) := by
  have body : Text.trimEnd ("\n<p>" ++ text) = "\n<p>" ++ text :=
    Text.trimEnd_eq_self (by rw [String.toList_append, chars, ← List.append_assoc,
      List.getLast?_concat]) solid
  let below : State := { State.start { ctx with target := .html } disk with depth := 1 }
  have inText : InText below := ⟨rfl, rfl, rfl⟩
  have opened : below.openParagraph Html.flavor =
      { below.write "\n<p>" with inParagraph := true, paragraphTags := [.opening] } :=
    inText.openParagraph_eq
  obtain ⟨paragraphTags, ran⟩ := walked below inText
  rw [opened] at ran
  have rendered : Walk.nodes { ctx with target := .html } chapter
      (.start { ctx with target := .html } disk) =
        (.ok (), { below with
          depth := 0, out := "\n<p>" ++ text, inParagraph := true, paragraphTags }) := by
    rw [Walk.nodes, deeper, within]
    exact congrArg (fun run : Except Fault Unit × State =>
      (run.1, { run.2 with depth := run.2.depth - 1 })) ran
  rw [render_eq, rendered]
  have closed : Text.trimEnd ("\n<p>" ++ text) ++ Html.flavor.paragraphClose =
      "\n<p>" ++ text ++ "</p>\n" := by rw [body]; rfl
  simp only [State.finish, State.closeParagraph, State.write, Context.flavor, Target.flavor,
    if_true, closed]
  simp [below, State.start, State.finishTable, State.disk, Desk.alone]

/-- Escaped text is rendered as a paragraph that shows the text. -/
theorem render_escape (kept : List String) (ctx : Context) (disk : Disk) {text : String}
    (some_ : text ≠ "") (trimmed : Text.trim text = text) (shows : IsShown text.toList) :
    let source := String.ofList (escape text.toList)
    Verbs.preprocess kept source = (source, kept) ∧
      ∃ nodes, Node.parse source = .ok nodes ∧
        render { ctx with target := .html } disk nodes =
          (.ok ⟨"\n<p>" ++ .ofList (shown text.toList) ++ "</p>\n", .empty⟩, disk) := by
  intro source
  obtain ⟨lead, front, c, chars, solid⟩ := Text.ends_of_trim trimmed some_
  have free : text.toList.IsChain fun a b => a = '\\' → b ≠ '[' :=
    shows.untaken.imp fun _ _ untaken slash => (untaken slash).2.2
  have unspanned : Verbs.Unspanned source.toList := by
    rw [String.toList_ofList]
    exact Prose.unspanned_escape _
  obtain ⟨nodes, parsed, reads⟩ := Node.parse_escape free
  refine ⟨Verbs.preprocess_unspanned unspanned kept, nodes, parsed, ?_⟩
  obtain ⟨-, d, ds, spelled, solid⟩ := Prose.showChar_solid solid
  have last : (String.ofList (shown text.toList)).toList = shown front ++ ds ++ [d] := by
    rw [String.toList_ofList, chars, shown, List.flatMap_append, List.flatMap_singleton, spelled,
      List.append_assoc]
    rfl
  exact render_paragraph last solid disk fun s inText =>
    ⟨_, neighbours_reads reads shows inText (.inr lead)⟩

/-- Reserved characters, a backslash in front of a line, and brackets away from it. -/
theorem render_escape_of_reserved :
    let ctx : Context := ⟨.empty, .empty, [], "", ⟨"", "", 0, 0, .offline⟩, .html, 1⟩
    let text := "[50%] of \x7ba_b\x7d\\\n<c> & $d^2$"
    let source := String.ofList (escape text.toList)
    text ≠ "" ∧ Text.trim text = text ∧ IsShown text.toList ∧
      ∃ nodes, Node.parse source = .ok nodes ∧
        render ctx .empty nodes =
          (.ok ⟨"\n<p>[50%] of \x7ba_b\x7d\\\n&lt;c&gt; &amp; $d^2$</p>\n", .empty⟩,
            .empty) := by
  intro ctx text source
  have trimmed : Text.trim text = text := by decide +kernel
  have shows : IsShown text.toList := by
    refine ⟨by decide +kernel, by decide +kernel, fun blanks _ inside => ?_, by decide +kernel⟩
    have twice := inside.sublist.count_le '\n'
    have once : text.toList.count '\n' = 1 := by decide +kernel
    simp [once] at twice
  obtain ⟨-, nodes, parsed, rendered⟩ := render_escape [] ctx .empty (by decide) trimmed shows
  have body : "\n<p>" ++ String.ofList (shown text.toList) ++ "</p>\n" =
      "\n<p>[50%] of \x7ba_b\x7d\\\n&lt;c&gt; &amp; $d^2$</p>\n" := by decide +kernel
  rw [body] at rendered
  exact ⟨by decide, trimmed, shows, nodes, parsed, rendered⟩

/-- Text in brackets behind a backslash is taken for an argument, which is not shown. -/
theorem taken_behind_backslash :
    let ctx : Context := ⟨.empty, .empty, [], "", ⟨"", "", 0, 0, .offline⟩, .html, 1⟩
    let text := "a\\[b]c"
    let body := (Node.parse (.ofList (escape text.toList))).toOption.bind
      fun chapter => (render ctx .empty chapter).1.toOption.map (·.body)
    Text.trim text = text ∧ body = some "\n<p>a\\c</p>\n" ∧
      body ≠ some ("\n<p>" ++ .ofList (shown text.toList) ++ "</p>\n") := by
  intro ctx text body
  have bracket : body = some "\n<p>a\\c</p>\n" := by decide +kernel
  refine ⟨by decide +kernel, bracket, ?_⟩
  rw [bracket]
  decide +kernel

end Walk
end Quire
