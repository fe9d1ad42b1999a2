import Mathlib.Data.List.DropRight
import Quire.Asset.Picture
import Quire.Proofs.Flavor.Escape
import Quire.Proofs.Verbs
import Quire.Walk

/-! Rendering a raw environment. Neither the reader nor the walk looks at its body. The pass beyond
inline verbatim text does: a span in the body gives way to its placeholder, as everywhere. -/
namespace Quire

namespace Walk

def verbatimSource (body : String) : String :=
  environmentMark "begin" "verbatim" ++ body ++ environmentMark "end" "verbatim"

/-- A body that does not end its own environment. -/
def IsRaw (body : String) : Prop := ¬ (environmentMark "end" "verbatim").toList <:+: body.toList

instance (body : String) : Decidable (IsRaw body) := inferInstanceAs (Decidable (¬ _))

/-- A text that `text` is but for line feeds at its ends. -/
structure IsCore (text core : List Char) : Prop where
  padded : ∃ front back, (∀ c ∈ front ++ back, c = '\n') ∧ text = front ++ core ++ back
  head?_ne : core.head? ≠ some '\n'
  getLast?_ne : core.getLast? ≠ some '\n'

theorem isCore_trimLineFeeds (text : String) : IsCore text.toList (trimLineFeeds text).toList := by
  rw [trimLineFeeds, String.toList_ofList]
  set behind := text.toList.dropWhile isLineFeed with behind_eq
  have lineFeed {c : Char} (is : isLineFeed c = true) : c = '\n' := by simpa [isLineFeed] using is
  have starts : (text.toList.takeWhile isLineFeed) ++ behind = text.toList :=
    List.takeWhile_append_dropWhile
  have ends : Text.dropEndWhile isLineFeed behind ++ behind.rtakeWhile isLineFeed = behind :=
    List.rdropWhile_append_rtakeWhile
  refine ⟨⟨text.toList.takeWhile isLineFeed, behind.rtakeWhile isLineFeed, ?_, ?_⟩, ?_, ?_⟩
  · intro c member
    rcases List.mem_append.mp member with front | back
    · exact lineFeed (List.mem_takeWhile_imp front)
    · exact lineFeed (List.mem_rtakeWhile_imp back)
  · rw [List.append_assoc, ends, starts]
  · intro first
    obtain ⟨core, core_eq⟩ := List.head?_eq_some_iff.mp first
    rw [core_eq, List.cons_append] at ends
    have dropped := List.head?_dropWhile_not isLineFeed text.toList
    rw [← behind_eq, ← ends] at dropped
    cases dropped
  · intro last
    obtain ⟨core, core_eq⟩ := List.getLast?_eq_some_iff.mp last
    have stays := List.rdropWhile_last_not isLineFeed behind (by
      rw [show behind.rdropWhile isLineFeed = _ from core_eq]
      simp)
    simp only [show behind.rdropWhile isLineFeed = _ from core_eq, List.getLast_append_singleton]
      at stays
    exact stays rfl

/-- The scanner takes a raw environment with its marks as one token. -/
theorem next?_verbatim {cs : List Char} {body : String}
    (ends : Text.before? (environmentMark "end" "verbatim").toList cs = some body.toList) :
    Token.next? '\\' ("begin\x7bverbatim\x7d".toList ++ cs) =
      some (.verbatim "verbatim" body, 15 + (body.toList.length + 14)) := by
  have closing : "\\end\x7b".toList ++ "verbatim".toList ++ ['\x7d'] =
      (environmentMark "end" "verbatim").toList := rfl
  have read : Token.verbatim? "verbatim".toList cs =
      some (.verbatim "verbatim" body, body.toList.length + 14) := by
    rw [Token.verbatim?, if_pos (by decide)]
    simp only [closing, ends, Option.map_some, String.ofList_toList]
    rfl
  have starts : "begin\x7b".toList.isPrefixOf? ("begin\x7bverbatim\x7d".toList ++ cs) =
      some ("verbatim\x7d".toList ++ cs) := rfl
  have named : Token.envName? ("verbatim\x7d".toList ++ cs) = some "verbatim".toList := rfl
  have behind : ("begin\x7bverbatim\x7d".toList ++ cs).drop
      ("begin\x7b".length + "verbatim".toList.length + 1) = cs := rfl
  have opened : Token.begin? ("begin\x7bverbatim\x7d".toList ++ cs) =
      some (.verbatim "verbatim" body, 15 + (body.toList.length + 14)) := by
    simp only [Token.begin?, starts, named, behind, read, bind, Option.bind_some]
    rfl
  exact congrArg (fun step : Token.Step => step <|> _) opened

theorem tokenize_verbatim {body : String} (raw : IsRaw body) :
    Token.tokenize (verbatimSource body) =
      .ok [⟨.verbatim "verbatim" body, verbatimSource body, 0⟩] := by
  have chars : (verbatimSource body).toList = '\\' :: ("begin\x7bverbatim\x7d".toList ++
      (body.toList ++ (environmentMark "end" "verbatim").toList)) := by
    rw [verbatimSource, String.toList_append, String.toList_append, List.append_assoc]
    rfl
  have ends : Text.before? (environmentMark "end" "verbatim").toList
      (body.toList ++ (environmentMark "end" "verbatim").toList) = some body.toList :=
    Text.before?_append_self (by decide) raw
  have length : ("begin\x7bverbatim\x7d".toList ++
      (body.toList ++ (environmentMark "end" "verbatim").toList)).length ≤
        15 + (body.toList.length + 14) := by
    rw [List.length_append, List.length_append]
    exact Nat.le_refl _
  rw [Token.tokenize, chars, Token.scan, next?_verbatim ends]
  simp only [List.take_of_length_le length, List.drop_of_length_le length, Token.scan, ← chars,
    String.ofList_toList]
  rfl

theorem parse_verbatim {body : String} (raw : IsRaw body) :
    Node.parse (verbatimSource body) = .ok [.environment "verbatim" [] [.text body]] := by
  have node : Node.ofVerbatim "verbatim" body = .environment "verbatim" [] [.text body] := by
    unfold Node.ofVerbatim
    split <;> rfl
  rw [Node.parse, tokenize_verbatim raw, ← node]
  rfl

theorem render_raw (ctx : Context) (disk : Disk) (body : String) :
    render { ctx with target := .html } disk [.environment "verbatim" [] [.text body]] =
      (.ok ⟨"\n<pre>" ++ .ofList ((trimLineFeeds body).toList.flatMap Html.entity) ++ "</pre>\n",
        .empty⟩, disk) := by
  have role : Role.ofName "verbatim" = .verbatim := by decide +kernel
  have block : Html.codeBlock (trimLineFeeds body) none = "\n<pre>" ++
      .ofList ((trimLineFeeds body).toList.flatMap Html.entity) ++ "</pre>\n" := by
    rw [← Html.toList_escape, String.ofList_toList]
    simp [Html.codeBlock, String.join]
  have left : remaining (.environment "verbatim" [] [.text body]) [] = [] := by
    simp only [remaining, roleOf?, role]
  have source : Node.sourceOf [.text body] = body := by simp [Node.sourceOf, Node.source]
  have options : (Node.environment "verbatim" [] [.text body]).options = .ok ⟨[]⟩ := rfl
  have none_ : (Options.mk []).get? "language" = none := rfl
  have walked (s : State) : neighbours { ctx with target := .html }
      [.environment "verbatim" [] [.text body]] s =
        (.ok (), (s.closeParagraph Html.flavor).write
          (Html.codeBlock (trimLineFeeds body) none)) := by
    rw [neighbours_cons, left, neighbours_nil]
    simp only [visit, role, perform, verbatim, options, Node.children, source, none_, bind, bind_,
      ofExcept, pure_, closeParagraph, write, modify]
    rfl
  rw [← block, render_eq, nodes]
  simp only [deeper, within, walked]
  simp [State.closeParagraph, State.start, State.write, State.finish, State.finishTable, State.disk,
    Desk.alone]

/-- The pass beyond inline verbatim text changes nothing in front of the body or behind it. -/
theorem preprocess_verbatimSource (kept : List String) (body : String) :
    Verbs.preprocess kept (verbatimSource body) =
      (verbatimSource (Verbs.preprocess kept body).1, (Verbs.preprocess kept body).2) := by
  have front : Verbs.Unspanned (environmentMark "begin" "verbatim").toList := by decide +kernel
  have plain : (environmentMark "end" "verbatim").toList.all (!Verbs.isFence ·) = true := by
    decide +kernel
  have fences : ∀ c ∈ (environmentMark "end" "verbatim").toList, Verbs.isFence c = false := by
    simpa using plain
  have back (n : Nat) : Verbs.extract n (environmentMark "end" "verbatim").toList =
      ((environmentMark "end" "verbatim").toList, []) :=
    Verbs.extract_unspanned n (by decide +kernel)
  have extracted : Verbs.extract kept.length (verbatimSource body).toList =
      ((environmentMark "begin" "verbatim").toList ++ ((Verbs.extract kept.length body.toList).1 ++
        (environmentMark "end" "verbatim").toList), (Verbs.extract kept.length body.toList).2) := by
    rw [verbatimSource, String.toList_append, String.toList_append, List.append_assoc,
      Verbs.extract_unspanned_append front, Verbs.extract_append fences back]
  rw [Verbs.preprocess, extracted]
  simp [Verbs.preprocess, verbatimSource, String.append_assoc]

theorem IsRaw.preprocess {body : String} (raw : IsRaw body) (kept : List String) :
    IsRaw (Verbs.preprocess kept body).1 := by
  have mark : (environmentMark "end" "verbatim").toList =
      '\\' :: 'e' :: "nd\x7bverbatim\x7d".toList := rfl
  have text :
      (Verbs.preprocess kept body).1.toList = (Verbs.extract kept.length body.toList).1 := by
    simp [Verbs.preprocess]
  rw [IsRaw, mark] at raw ⊢
  rw [text]
  exact fun inside => raw (Verbs.infix_of_extract (by decide) (by decide) inside)

/-- A raw environment becomes a block that shows its body, without the line feeds at its ends and
with the characters that HTML reserves as entities. A span of inline verbatim text in the body gives
way to its placeholder first, and a body without spans is shown as it is written. -/
theorem render_verbatim (ctx : Context) (kept : List String) (disk : Disk) {body : String}
    (raw : IsRaw body) :
    let shown := (Verbs.preprocess kept body).1
    Verbs.preprocess kept (verbatimSource body) =
        (verbatimSource shown, (Verbs.preprocess kept body).2) ∧
      (∃ nodes core, Node.parse (verbatimSource shown) = .ok nodes ∧ IsCore shown.toList core ∧
        render { ctx with target := .html } disk nodes =
          (.ok ⟨"\n<pre>" ++ .ofList (core.flatMap Html.entity) ++ "</pre>\n", .empty⟩, disk)) ∧
      (Verbs.Spanless body.toList → Verbs.preprocess kept body = (body, kept)) := by
  intro shown
  refine ⟨preprocess_verbatimSource kept body, ?_, fun spanless => ?_⟩
  · exact ⟨_, _, parse_verbatim (raw.preprocess kept), isCore_trimLineFeeds shown,
      render_raw ctx disk shown⟩
  · rw [Verbs.preprocess, Verbs.extract_spanless spanless]
    simp

theorem render_verbatim_markup :
    let ctx : Context := ⟨.empty, .empty, [], "", ⟨"", "", 0, 0, .offline⟩, .html, 1⟩
    let disk : Disk := .empty
    let body := "\n\\textbf\x7b<b>\x7d & $x$ % \x7b\n"
    IsRaw body ∧ Verbs.Spanless body.toList ∧
      ∃ nodes core, Node.parse (verbatimSource body) = .ok nodes ∧ IsCore body.toList core ∧
        render ctx disk nodes =
          (.ok ⟨"\n<pre>" ++ .ofList (core.flatMap Html.entity) ++ "</pre>\n", .empty⟩, disk) := by
  intro ctx disk body
  have raw : IsRaw body := by decide +kernel
  have spanless : Verbs.Spanless body.toList := Verbs.spanless_of_isChain (by decide +kernel)
  obtain ⟨-, block, same⟩ := render_verbatim ctx [] disk raw
  rw [same spanless] at block
  exact ⟨raw, spanless, block⟩

/-- A span in a raw body is shown as its placeholder. -/
theorem placeholder_in_verbatim :
    let ctx : Context := ⟨.empty, .empty, ["x"], "", ⟨"", "", 0, 0, .offline⟩, .html, 1⟩
    let body := "\\verb|x|"
    let shown := "\n<pre>\\verbplaceholder\x7b0\x7d</pre>\n"
    IsRaw body ∧
      ((Node.parse (Verbs.preprocess [] (verbatimSource body)).1).toOption.bind fun chapter =>
        (render ctx .empty chapter).1.toOption.map (·.body)) = some shown ∧
      shown ≠ "\n<pre>\\verb|x|</pre>\n" := by
  intro ctx body shown
  exact ⟨by decide +kernel, by decide +kernel, by decide +kernel⟩

end Walk
end Quire
